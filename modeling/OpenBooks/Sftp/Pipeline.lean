import OpenBooks.Sftp.Session
import Mathlib.Tactic.IntervalCases

/-!
# Pipelined requests

A client need not wait for an answer before it sends its next request, and a handler gives way at
every call it waits for: the liveness fence, and each call to storage. So the handlers of one
session interleave, and the table of handles that one left is not the one it comes back to.

Here a handler is the piece of code between two such calls, and what it waits for is a value of
`Suspended` that holds what it needs to go on. Storage is whatever answers; it may answer two
questions about one file differently. The pieces are the ones of `dispatch`, and run one after the
other, with nothing between, they do what it does (`drive_eq_dispatch`).

The count of buffered bytes is right and bounded under every schedule (`pipeline_bytes`). The bounds
on handles and on single files are not, since their checks are made earlier;
`withinLimits_of_rechecked` says that there is no other way past the limits.
-/

namespace OpenBooks

open Checked List HandleTable

/-! ### Suspended handlers -/

/-- The requests that open, use and close handles. -/
inductive HandleRequest where
  | OPEN (filename : List Char) (flags : ℕ)
  | OPENDIR (p : List Char)
  | READ (h offset length : ℕ)
  | WRITE (h offset : ℕ) (bytes : Data)
  | CLOSE (h : ℕ)

def HandleRequest.toRequest : HandleRequest → Request
  | .OPEN filename flags => .OPEN filename flags
  | .OPENDIR p => .OPENDIR p
  | .READ h offset length => .READ h offset length
  | .WRITE h offset bytes => .WRITE h offset bytes
  | .CLOSE h => .CLOSE h

/-- A handler at a call it waits for. -/
inductive Suspended where
  /-- Any request, at the liveness fence. -/
  | fence (r : HandleRequest)
  /-- An open for writing, waiting for what is at its path, and then for the bytes. -/
  | openWriteStat (h : ℕ) (filename : List Char) (flags : ℕ)
  | openWriteRead (h : ℕ) (filename : List Char) (flags : ℕ)
  /-- An open for reading, waiting for the same. -/
  | openReadStat (h : ℕ) (filename : List Char)
  | openReadRead (h : ℕ) (filename : List Char)
  /-- A listing, waiting for its names. -/
  | listing (p : List Char)
  /-- A close, waiting for what was written to be saved. -/
  | saving (f : OpenFile)

/-- What a handler may be told. -/
inductive Answer where
  | live (x : Except String Unit)
  | stat (x : Except StorageError (Option SftpStat))
  | read (x : Except StorageError Data)
  | list (x : Except StorageError (List SftpEntry))
  | saved (x : Except StorageError Unit)

/-- Where a handler stops. -/
inductive Progress where
  | replied (reply : Reply)
  | suspended (w : Suspended)

/-- The handler that is left, if it has not replied. -/
def Progress.pending : Progress → List Suspended
  | .replied _ => []
  | .suspended w => [w]

section Pieces

variable (config : SessionConfig)

/-- Enter a file, and reply with its handle. -/
def registered (h : ℕ) (f : OpenFile) (t : HandleTable) : Progress × HandleTable :=
  match registerFile config h f t with
  | .ok t' => (.replied (.handle h), t')
  | .error refusal => (.replied refusal, t)

/-- The piece of a handler from the fence on. -/
def startHandler (r : HandleRequest) (t : HandleTable) : Progress × HandleTable :=
  match r with
  | .OPEN filename flags =>
    match admitOpen config filename flags t with
    | .error refusal => (.replied refusal, t)
    | .ok (h, t') =>
      if isWriting flags then
        if hasFlag flags OPEN_MODE_TRUNC then
          registered config h (writtenFile filename flags []) t'
        else (.suspended (.openWriteStat h filename flags), t')
      else (.suspended (.openReadStat h filename), t')
  | .OPENDIR p =>
    match denyOverHandleCap config t with
    | .error refusal => (.replied refusal, t)
    | .ok _ => (.suspended (.listing p), t)
  | .READ h offset length => (.replied (readHandle h offset length t), t)
  | .WRITE h offset bytes =>
    match writeHandle config h offset bytes t with
    | .error refusal => (.replied refusal, t)
    | .ok t' => (.replied (.status .OK none), t')
  | .CLOSE h =>
    match closeHandle h t with
    | (none, t') => (.replied (.status .OK none), t')
    | (some f, t') =>
      if f.write then
        match refuseUnsavable config f with
        | .error refusal => (.replied refusal, t')
        | .ok _ => (.suspended (.saving f), t')
      else (.replied (.status .OK none), t')

/-- The piece of a handler from an answer to the next call. An answer to another call leaves it
waiting. -/
def resumeHandler (w : Suspended) (answer : Answer) (t : HandleTable) : Progress × HandleTable :=
  match w, answer with
  | .fence r, .live (.ok _) => startHandler config r t
  | .fence _, .live (.error reason) => (.replied (.status .PERMISSION_DENIED (some reason)), t)
  | .openWriteStat _ _ _, .stat (.error e) => (.replied (failReply e "open"), t)
  | .openWriteStat h filename flags, .stat (.ok st) =>
    match writeBase config flags st with
    | .error refusal => (.replied refusal, t)
    | .ok true => (.suspended (.openWriteRead h filename flags), t)
    | .ok false => registered config h (writtenFile filename flags []) t
  | .openWriteRead _ _ _, .read (.error e) => (.replied (failReply e "open"), t)
  | .openWriteRead h filename flags, .read (.ok buf) =>
    registered config h (writtenFile filename flags buf) t
  | .openReadStat _ _, .stat (.error e) => (.replied (failReply e "open"), t)
  | .openReadStat h filename, .stat (.ok st) =>
    match readBase config st with
    | .error refusal => (.replied refusal, t)
    | .ok _ => (.suspended (.openReadRead h filename), t)
  | .openReadRead _ _, .read (.error e) => (.replied (failReply e "open"), t)
  | .openReadRead h filename, .read (.ok buf) =>
    match refuseOverCap config buf.length with
    | .error refusal => (.replied refusal, t)
    | .ok _ => registered config h (readingFile filename buf) t
  | .listing _, .list (.error e) => (.replied (failReply e "list"), t)
  | .listing _, .list (.ok entries) =>
    let (h, t') := t.newHandle
    (.replied (.handle h), t'.setDir h ⟨entries.filter fun e => !isSftpTempName e.name, 0⟩)
  | .saving _, .saved (.error e) => (.replied (failReply e "save"), t)
  | .saving _, .saved (.ok _) => (.replied (.status .OK none), t)
  | w, _ => (.suspended w, t)

end Pieces

/-! ### Schedules -/

structure Pipeline where
  table : HandleTable
  handlers : List Suspended

/-- What happens next: a request comes in, or one of the handlers is told something. -/
inductive Event where
  | arrive (r : HandleRequest)
  | resume (i : ℕ) (answer : Answer)

def Pipeline.step (config : SessionConfig) (s : Pipeline) (event : Event) : Pipeline :=
  match event with
  | .arrive r => { s with handlers := s.handlers ++ [.fence r] }
  | .resume i answer =>
    match s.handlers[i]? with
    | none => s
    | some w =>
      let (progress, t) := resumeHandler config w answer s.table
      ⟨t, progress.pending ++ s.handlers.eraseIdx i⟩

/-- A session before its first request. -/
def Pipeline.start : Pipeline := ⟨empty, []⟩

/-- The session after a schedule. -/
def Pipeline.run (config : SessionConfig) (events : List Event) : Pipeline :=
  events.foldl (Pipeline.step config) Pipeline.start

/-! ### One handler alone -/

variable (r : HandleRequest)

section Alone

variable {σ : Type} (backend : SftpBackend σ) (config : SessionConfig)

/-- What storage answers to a suspended handler, and the store after that. -/
def answered (w : Suspended) (store : σ) : Answer × σ :=
  match w with
  | .fence _ => (.live (.ok ()), store)
  | .openWriteStat _ filename _ =>
    ((.stat ((backend.stat (cleanPath filename)).outcome store).1),
      ((backend.stat (cleanPath filename)).outcome store).2)
  | .openWriteRead _ filename _ =>
    ((.read ((backend.read (cleanPath filename)).outcome store).1),
      ((backend.read (cleanPath filename)).outcome store).2)
  | .openReadStat _ filename =>
    ((.stat ((backend.stat filename).outcome store).1), ((backend.stat filename).outcome store).2)
  | .openReadRead _ filename =>
    ((.read ((backend.read filename).outcome store).1), ((backend.read filename).outcome store).2)
  | .listing p => ((.list ((backend.list p).outcome store).1), ((backend.list p).outcome store).2)
  | .saving f =>
    ((.saved ((backend.write f.path f.buf).outcome store).1),
      ((backend.write f.path f.buf).outcome store).2)

/-- A handler run to its reply, with nothing between its pieces. -/
def drive : ℕ → Suspended → Session σ → Option (Reply × Session σ)
  | 0, _, _ => none
  | fuel + 1, w, s =>
    let (answer, store) := answered backend w s.store
    match resumeHandler config w answer s.table with
    | (.replied reply, t) => some (reply, ⟨t, store⟩)
    | (.suspended w', t) => drive fuel w' ⟨t, store⟩

theorem registered_eq (h : ℕ) (f : OpenFile) (s : Session σ) :
    ∃ reply t, registered config h f s.table = (.replied reply, t) ∧
      registering config h f s = (reply, { s with table := t }) := by
  unfold registered registering checking
  cases registerFile config h f s.table with
  | ok t | error refusal => exact ⟨_, _, rfl, rfl⟩

variable (fuel : ℕ)

section

variable (h : ℕ) (filename : List Char)

theorem drive_openWriteRead (flags : ℕ) (s : Session σ) :
    drive backend config (fuel + 1) (.openWriteRead h filename flags) s =
      some (asking (backend.read (cleanPath filename)) "open" s fun buf s =>
        registering config h (writtenFile filename flags buf) s) := by
  unfold drive asking
  simp only [answered]
  rcases (backend.read (cleanPath filename)).outcome s.store with ⟨result, store⟩
  cases result with
  | error e => rfl
  | ok buf =>
    obtain ⟨reply, t, hpiece, hwhole⟩ :=
      registered_eq config h (writtenFile filename flags buf) ⟨s.table, store⟩
    simp only [resumeHandler, hpiece, hwhole]

theorem drive_openWriteStat (flags : ℕ) (s : Session σ) :
    drive backend config (fuel + 2) (.openWriteStat h filename flags) s =
      some (asking (backend.stat (cleanPath filename)) "open" s fun st s =>
        checking (writeBase config flags st) s fun reads =>
          if reads then
            asking (backend.read (cleanPath filename)) "open" s fun buf s =>
              registering config h (writtenFile filename flags buf) s
          else registering config h (writtenFile filename flags []) s) := by
  rw [drive, asking]
  simp only [answered]
  rcases (backend.stat (cleanPath filename)).outcome s.store with ⟨result, store⟩
  cases result with
  | error e => rfl
  | ok st =>
    simp only [resumeHandler]
    cases hbase : writeBase config flags st with
    | error refusal => rfl
    | ok reads =>
      cases reads with
      | true => exact drive_openWriteRead backend config fuel h filename flags ⟨s.table, store⟩
      | false =>
        obtain ⟨reply, t, hpiece, hwhole⟩ :=
          registered_eq config h (writtenFile filename flags []) ⟨s.table, store⟩
        simp only [hpiece, checking, Bool.false_eq_true, if_false, hwhole]

theorem drive_openReadRead (s : Session σ) :
    drive backend config (fuel + 1) (.openReadRead h filename) s =
      some (asking (backend.read filename) "open" s fun buf s =>
        checking (refuseOverCap config buf.length) s fun _ =>
          registering config h (readingFile filename buf) s) := by
  unfold drive asking
  simp only [answered]
  rcases (backend.read filename).outcome s.store with ⟨result, store⟩
  cases result with
  | error e => rfl
  | ok buf =>
    simp only [resumeHandler]
    cases refuseOverCap config buf.length with
    | error refusal => rfl
    | ok u =>
      obtain ⟨reply, t, hpiece, hwhole⟩ :=
        registered_eq config h (readingFile filename buf) ⟨s.table, store⟩
      simp only [hpiece, checking, hwhole]

theorem drive_openReadStat (s : Session σ) :
    drive backend config (fuel + 2) (.openReadStat h filename) s =
      some (asking (backend.stat filename) "open" s fun st s =>
        checking (readBase config st) s fun _ =>
          asking (backend.read filename) "open" s fun buf s =>
            checking (refuseOverCap config buf.length) s fun _ =>
              registering config h (readingFile filename buf) s) := by
  rw [drive, asking]
  simp only [answered]
  rcases (backend.stat filename).outcome s.store with ⟨result, store⟩
  cases result with
  | error e => rfl
  | ok st =>
    simp only [resumeHandler]
    cases hbase : readBase config st with
    | error refusal => rfl
    | ok u => exact drive_openReadRead backend config fuel h filename ⟨s.table, store⟩

end

/-- **A handler of the table of handles whose pieces run one after the other does what the request
does**: OPEN, OPENDIR, READ, WRITE and CLOSE. -/
theorem drive_eq_dispatch (s : Session σ) :
    drive backend config 3 (.fence r) s = some (dispatch backend config r.toRequest s) := by
  rw [drive]
  simp only [answered, resumeHandler]
  cases r with
  | OPEN filename flags =>
    simp only [startHandler, HandleRequest.toRequest, dispatch, openFile]
    cases hadmit : admitOpen config filename flags s.table with
    | error refusal => rfl
    | ok admitted =>
      obtain ⟨h, t⟩ := admitted
      simp only [checking]
      split_ifs with hwriting htrunc
      · obtain ⟨reply, t', hpiece, hwhole⟩ :=
          registered_eq config h (writtenFile filename flags []) ⟨t, s.store⟩
        simp only [hpiece, hwhole]
      · exact drive_openWriteStat backend config 0 h filename flags ⟨t, s.store⟩
      · exact drive_openReadStat backend config 0 h filename ⟨t, s.store⟩
  | OPENDIR p =>
    simp only [startHandler, HandleRequest.toRequest, dispatch, opendir]
    cases hcap : denyOverHandleCap config s.table with
    | error refusal => rfl
    | ok u =>
      simp only [checking, drive, answered, asking]
      rcases (backend.list p).outcome s.store with ⟨result, store⟩
      cases result <;> rfl
  | READ h offset length => rfl
  | WRITE h offset bytes =>
    simp only [startHandler, HandleRequest.toRequest, dispatch, checking]
    cases writeHandle config h offset bytes s.table <;> rfl
  | CLOSE h =>
    simp only [startHandler, HandleRequest.toRequest, dispatch, closeFile]
    rcases closeHandle h s.table with ⟨closed, t⟩
    cases closed with
    | none => rfl
    | some f =>
      dsimp only
      split_ifs
      · cases refuseUnsavable config f with
        | error refusal => rfl
        | ok u =>
          simp only [checking, drive, answered, asking]
          rcases (backend.write f.path f.buf).outcome s.store with ⟨result, store⟩
          cases result <;> rfl
      · rfl

end Alone

/-! ### The bytes a session holds -/

/-- The bytes of a table's files. -/
def bufferedBytes (files : List (ℕ × OpenFile)) : ℕ := (files.map fun x => x.2.buf.length).sum

/-- The handle a suspended open has been given. -/
def Suspended.handles : Suspended → List ℕ
  | .openWriteStat h _ _ | .openWriteRead h _ _ | .openReadStat h _ | .openReadRead h _ => [h]
  | .fence _ | .listing _ | .saving _ => []

/-- The handle that stays given when a handler stops. -/
def Progress.handles (progress : Progress) : List ℕ := progress.pending.flatMap Suspended.handles

/-- What holds of the table whatever the schedule. The handles given to suspended opens are
each their own, and so are those of the open files; so a file is never entered over another,
and the count of bytes is the bytes. -/
structure TableSound (config : SessionConfig) (t : HandleTable) (given : List ℕ) : Prop where
  bytes_eq : t.sessionBufferedBytes = bufferedBytes t.files
  bytes_le : t.sessionBufferedBytes ≤ config.limits.maxSessionBufferBytes
  nodup : (given ++ t.files.map Prod.fst).Nodup
  issued : ∀ h ∈ given ++ t.files.map Prod.fst, h ≤ t.handleSeq

variable {files : List (ℕ × OpenFile)} {h : ℕ}

theorem filter_ne_of_notMem (hmem : h ∉ files.map Prod.fst) : files.filter (·.1 ≠ h) = files := by
  refine filter_eq_self.mpr fun x hx => ?_
  have hne : x.1 ≠ h := fun heq => hmem (heq ▸ mem_map_of_mem hx)
  simpa using hne

theorem perm_of_lookup {f : OpenFile} (hlookup : files.lookup h = some f)
    (hnodup : (files.map Prod.fst).Nodup) : files.Perm ((h, f) :: files.filter (·.1 ≠ h)) := by
  obtain ⟨l₁, l₂, rfl, -⟩ := List.lookup_eq_some_iff.mp hlookup
  rw [map_append, map_cons, perm_middle.nodup_iff, nodup_cons] at hnodup
  have hrest : h ∉ l₁.map Prod.fst ∧ h ∉ l₂.map Prod.fst := by
    simpa only [mem_append, not_or] using hnodup.1
  rw [filter_append, filter_cons_of_neg (by simp), filter_ne_of_notMem hrest.1,
    filter_ne_of_notMem hrest.2]
  exact perm_middle

theorem bufferedBytes_filter {f : OpenFile} (hlookup : files.lookup h = some f)
    (hnodup : (files.map Prod.fst).Nodup) :
    bufferedBytes files = f.buf.length + bufferedBytes (files.filter (·.1 ≠ h)) := by
  unfold bufferedBytes
  rw [((perm_of_lookup hlookup hnodup).map _).sum_eq, map_cons, sum_cons]

variable {bytes : Data} {offset : ℕ}

section Sound

variable {config : SessionConfig} {t t' : HandleTable} {given : List ℕ}

theorem TableSound.newHandle (ht : TableSound config t given) :
    TableSound config t.newHandle.2 (t.newHandle.1 :: given) where
  bytes_eq := ht.bytes_eq
  bytes_le := ht.bytes_le
  nodup := by
    refine nodup_cons.mpr ⟨fun hmem => ?_, ht.nodup⟩
    have hle := ht.issued _ hmem
    simp [HandleTable.newHandle] at hle
  issued := by
    intro h hh
    rcases mem_cons.mp hh with rfl | hh
    · exact le_rfl
    · exact Nat.le_succ_of_le (ht.issued h hh)

theorem TableSound.drop (ht : TableSound config t (h :: given)) : TableSound config t given :=
  ⟨ht.bytes_eq, ht.bytes_le, (nodup_cons.mp ht.nodup).2,
    fun x hx => ht.issued x (mem_cons_of_mem h hx)⟩

theorem TableSound.registered {h : ℕ} {f : OpenFile} (ht : TableSound config t (h :: given)) :
    TableSound config (registered config h f t).2 given := by
  unfold OpenBooks.registered
  cases hregister : registerFile config h f t with
  | error refusal => exact ht.drop
  | ok t' =>
    simp only [registerFile, refuseOverSession, bind_eq_ok, refuseIf_eq_ok, pure_eq_ok,
      not_lt] at hregister
    obtain ⟨_, hle, rfl⟩ := hregister
    have hnew : h ∉ t.files.map Prod.fst := fun hmem =>
      (nodup_cons.mp ht.nodup).1 (mem_append.mpr (Or.inr hmem))
    have hfiles : t.files.filter (·.1 ≠ h) = t.files := filter_ne_of_notMem hnew
    refine ⟨?_, hle, ?_, ?_⟩
    · simp only [setFile, hfiles, bufferedBytes, map_cons, sum_cons,
        ht.bytes_eq]
      omega
    · simp only [setFile, hfiles, map_cons]
      exact perm_middle.nodup_iff.mpr ht.nodup
    · intro x hx
      simp only [setFile, hfiles, map_cons] at hx
      refine ht.issued x ?_
      simp only [mem_append, mem_cons] at hx ⊢
      tauto

theorem length_spliced (buf : Data) (position : ℕ) (bytes : Data) :
    (spliced buf position bytes).length = max buf.length (position + bytes.length) := by
  simp only [spliced, length_append, length_take, length_drop, length_replicate]
  omega

/-- What a write does to the table: one file grows, and the count with it. -/
theorem writeHandle_eq_ok (hwrite : writeHandle config h offset bytes t = .ok t') :
    ∃ f buf, t.files.lookup h = some f ∧ f.buf.length ≤ buf.length ∧
      buf.length ≤ max f.buf.length config.limits.maxFileBytes ∧
      t.sessionBufferedBytes + (buf.length - f.buf.length) ≤
        config.limits.maxSessionBufferBytes ∧
      t' = { t.setFile h { f with buf := buf } with
        sessionBufferedBytes := t.sessionBufferedBytes + (buf.length - f.buf.length) } := by
  simp only [writeHandle, bind_eq_ok, orRefuse_eq_ok, refuseIf_eq_ok, pure_eq_ok, not_lt]
    at hwrite
  obtain ⟨f, hf, _, -, _, hfile, _, hsession, rfl⟩ := hwrite
  obtain ⟨hlookup, -⟩ := Option.filter_eq_some_iff.mp hf
  generalize (if f.append = true then f.buf.length else offset) = position at *
  have hlength := length_spliced f.buf position bytes
  have hgrowth : (spliced f.buf position bytes).length - f.buf.length =
      position + bytes.length - f.buf.length := by
    omega
  exact ⟨f, spliced f.buf position bytes, hlookup, by omega, by omega, by omega, by rw [hgrowth]⟩

theorem TableSound.write (ht : TableSound config t given)
    (hwrite : writeHandle config h offset bytes t = .ok t') : TableSound config t' given := by
  obtain ⟨f, buf, hlookup, hgrown, -, hle, rfl⟩ := writeHandle_eq_ok hwrite
  have hnodup := (nodup_append.mp ht.nodup).2.1
  have hbytes := bufferedBytes_filter hlookup hnodup
  -- The keys are the same, with the written one in front.
  have hperm : (h :: (t.files.filter (·.1 ≠ h)).map Prod.fst).Perm (t.files.map Prod.fst) :=
    ((perm_of_lookup hlookup hnodup).map Prod.fst).symm
  refine ⟨?_, hle, ?_, ?_⟩
  · have heq := ht.bytes_eq
    simp only [setFile, bufferedBytes, map_cons, sum_cons] at hbytes heq ⊢
    omega
  · exact ((hperm.append_left given).nodup_iff).mpr ht.nodup
  · exact fun x hx => ht.issued x ((hperm.append_left given).mem_iff.mp hx)

theorem TableSound.close (ht : TableSound config t given) (h : ℕ) :
    TableSound config (closeHandle h t).2 given := by
  unfold closeHandle
  cases hlookup : t.files.lookup h with
  | none => exact ⟨ht.bytes_eq, ht.bytes_le, ht.nodup, ht.issued⟩
  | some f =>
    have hnodup := (nodup_append.mp ht.nodup).2.1
    have hbytes := bufferedBytes_filter hlookup hnodup
    have heq := ht.bytes_eq
    have hle := ht.bytes_le
    have hsub : (given ++ (t.files.filter (·.1 ≠ h)).map Prod.fst).Sublist
        (given ++ t.files.map Prod.fst) :=
      (filter_sublist.map Prod.fst).append_left given
    refine ⟨?_, ?_, ht.nodup.sublist hsub, fun x hx => ht.issued x (hsub.subset hx)⟩
    · dsimp only
      omega
    · dsimp only
      omega

theorem handles_registered (h : ℕ) (f : OpenFile) (t : HandleTable) :
    (OpenBooks.registered config h f t).1.handles = [] := by
  unfold OpenBooks.registered
  cases registerFile config h f t <;> rfl

theorem startHandler_rule {P : List ℕ → HandleTable → Prop} (hsame : P [] t)
    (hnew : t.overHandleCap config.limits = false → P [t.newHandle.1] t.newHandle.2)
    (henter : t.overHandleCap config.limits = false → ∀ filename flags,
      P [] (registered config t.newHandle.1 (writtenFile filename flags []) t.newHandle.2).2)
    (hwrite : ∀ h offset bytes t', writeHandle config h offset bytes t = .ok t' → P [] t')
    (hclose : ∀ h, P [] (closeHandle h t).2) :
    P (startHandler config r t).1.handles (startHandler config r t).2 := by
  cases r with
  | OPEN filename flags =>
    simp only [startHandler]
    cases hadmit : admitOpen config filename flags t with
    | error refusal => exact hsame
    | ok admitted =>
      simp only [admitOpen, bind_eq_ok, pure_eq_ok] at hadmit
      obtain ⟨_, -, _, hcap, _, -, rfl⟩ := hadmit
      have hroom : t.overHandleCap config.limits = false := by
        simpa using refuseIf_eq_ok.mp hcap
      dsimp only
      split_ifs
      · rw [handles_registered]
        exact henter hroom filename flags
      · exact hnew hroom
      · exact hnew hroom
  | OPENDIR p =>
    simp only [startHandler]
    cases denyOverHandleCap config t <;> exact hsame
  | READ h offset length => exact hsame
  | WRITE h offset bytes =>
    simp only [startHandler]
    cases hwritten : writeHandle config h offset bytes t with
    | error refusal => exact hsame
    | ok t' => exact hwrite h offset bytes t' hwritten
  | CLOSE h =>
    have hclose := hclose h
    simp only [startHandler]
    rcases hclosed : closeHandle h t with ⟨closed, t'⟩
    rw [hclosed] at hclose
    cases closed with
    | none => exact hclose
    | some f =>
      dsimp only
      split_ifs
      · cases refuseUnsavable config f <;> exact hclose
      · exact hclose

theorem TableSound.start (ht : TableSound config t given) :
    TableSound config (startHandler config r t).2
      ((startHandler config r t).1.handles ++ given) :=
  startHandler_rule r (P := fun handles t => TableSound config t (handles ++ given)) ht
    (fun _ => ht.newHandle) (fun _ _ _ => ht.newHandle.registered) (fun _ _ _ _ => ht.write)
    ht.close

/-- **One piece of a handler keeps the table sound.** -/
theorem TableSound.resume {w : Suspended} (answer : Answer)
    (ht : TableSound config t (w.handles ++ given)) :
    TableSound config (resumeHandler config w answer t).2
      ((resumeHandler config w answer t).1.handles ++ given) := by
  unfold resumeHandler
  split
  · exact ht.start _
  · exact ht
  · exact ht.drop
  · split
    · exact ht.drop
    · exact ht
    · rw [handles_registered]
      exact ht.registered
  · exact ht.drop
  · rw [handles_registered]
    exact ht.registered
  · exact ht.drop
  · split
    · exact ht.drop
    · exact ht
  · exact ht.drop
  · split
    · exact ht.drop
    · rw [handles_registered]
      exact ht.registered
  · exact ht
  · have hnew := ht.newHandle.drop
    exact ⟨hnew.bytes_eq, hnew.bytes_le, hnew.nodup, hnew.issued⟩
  · exact ht
  · exact ht
  · simpa [Progress.handles, Progress.pending] using ht

theorem TableSound.perm {given' : List ℕ} (ht : TableSound config t given)
    (hperm : given.Perm given') : TableSound config t given' :=
  ⟨ht.bytes_eq, ht.bytes_le, (hperm.append_right _).nodup_iff.mp ht.nodup,
    fun h hh => ht.issued h ((hperm.append_right _).mem_iff.mpr hh)⟩

end Sound

def Pipeline.given (s : Pipeline) : List ℕ := s.handlers.flatMap Suspended.handles

/-- **One step of a schedule keeps the table sound.** -/
theorem tableSound_step {config : SessionConfig} {s : Pipeline} (event : Event)
    (hs : TableSound config s.table s.given) :
    TableSound config (s.step config event).table (s.step config event).given := by
  cases event with
  | arrive r =>
    simpa [Pipeline.step, Pipeline.given, Suspended.handles] using hs
  | resume i answer =>
    cases hw : s.handlers[i]? with
    | none => simpa only [Pipeline.step, hw] using hs
    | some w =>
      obtain ⟨hi, hget⟩ := List.getElem?_eq_some_iff.mp hw
      have hperm : s.given.Perm (w.handles ++ (s.handlers.eraseIdx i).flatMap Suspended.handles) := by
        have hfront := (getElem_cons_eraseIdx_perm hi).symm.flatMap_right Suspended.handles
        rwa [flatMap_cons, hget] at hfront
      have hresume := (hs.perm hperm).resume answer
      simpa only [Pipeline.step, hw, Pipeline.given, flatMap_append, Progress.handles] using hresume

/-- **The count of bytes is right and bounded at every moment of every schedule.** -/
theorem pipeline_bytes (config : SessionConfig) (events : List Event) :
    TableSound config (Pipeline.run config events).table (Pipeline.run config events).given := by
  induction events using reverseRecOn with
  | nil => exact ⟨rfl, Nat.zero_le _, nodup_nil, by simp [Pipeline.run, Pipeline.start,
      Pipeline.given, empty]⟩
  | append_singleton events event ih =>
    have hrun : Pipeline.run config (events ++ [event]) =
        (Pipeline.run config events).step config event := by
      simp [Pipeline.run]
    rw [hrun]
    exact tableSound_step event ih

/-! ### The limits -/

/-- The limits of a session, as they should hold at every moment. -/
structure WithinLimits (limits : SftpSessionLimits) (t : HandleTable) : Prop where
  bytes_eq : t.sessionBufferedBytes = bufferedBytes t.files
  bytes_le : t.sessionBufferedBytes ≤ limits.maxSessionBufferBytes
  file_le : ∀ x ∈ t.files, x.2.buf.length ≤ limits.maxFileBytes
  handles_le : t.files.length + t.dirs.length ≤ limits.maxOpenHandles

/-- The two checks that are not made again after a call: when a handle is entered, the cap on
handles; and when a file was read to be written to, the cap on a file. -/
def Rechecked (config : SessionConfig) (w : Suspended) (answer : Answer) (t : HandleTable) :
    Prop :=
  match w, answer with
  | .openWriteStat _ _ flags, .stat (.ok st) =>
    writeBase config flags st = .ok false → t.overHandleCap config.limits = false
  | .openWriteRead _ _ _, .read (.ok buf) =>
    refuseOverSession config buf.length t = .ok () →
      t.overHandleCap config.limits = false ∧ refuseOverCap config buf.length = .ok ()
  | .openReadRead _ _, .read (.ok buf) =>
    refuseOverCap config buf.length = .ok () → refuseOverSession config buf.length t = .ok () →
      t.overHandleCap config.limits = false
  | .listing _, .list (.ok _) => t.overHandleCap config.limits = false
  | _, _ => True

/-- The limits that are not the count's. -/
def Bounded (limits : SftpSessionLimits) (t : HandleTable) : Prop :=
  (∀ x ∈ t.files, x.2.buf.length ≤ limits.maxFileBytes) ∧
    t.files.length + t.dirs.length ≤ limits.maxOpenHandles

section Bounds

variable {config : SessionConfig} {t t' : HandleTable}

theorem overHandleCap_eq_false {limits : SftpSessionLimits} :
    t.overHandleCap limits = false ↔ t.files.length + t.dirs.length < limits.maxOpenHandles := by
  simp [overHandleCap]

theorem Bounded.registered {h : ℕ} {f : OpenFile} (ht : Bounded config.limits t)
    (hfits : refuseOverSession config f.buf.length t = .ok () →
      t.overHandleCap config.limits = false ∧ f.buf.length ≤ config.limits.maxFileBytes) :
    Bounded config.limits (registered config h f t).2 := by
  unfold OpenBooks.registered
  cases hregister : registerFile config h f t with
  | error refusal => exact ht
  | ok t' =>
    simp only [registerFile, bind_eq_ok, pure_eq_ok] at hregister
    obtain ⟨_, hsession, rfl⟩ := hregister
    obtain ⟨hcap, hfile⟩ := hfits hsession
    rw [overHandleCap_eq_false] at hcap
    refine ⟨fun x hx => ?_, ?_⟩
    · rcases mem_cons.mp hx with rfl | hx
      · exact hfile
      · exact ht.1 x (mem_of_mem_filter hx)
    · have hlength := length_filter_le (·.1 ≠ h) t.files
      simp only [setFile, length_cons]
      omega

theorem Bounded.write (ht : Bounded config.limits t)
    (hwrite : writeHandle config h offset bytes t = .ok t') : Bounded config.limits t' := by
  obtain ⟨f, buf, hlookup, -, hbuf, -, rfl⟩ := writeHandle_eq_ok hwrite
  obtain ⟨l₁, l₂, hfiles, -⟩ := List.lookup_eq_some_iff.mp hlookup
  have hmem : (h, f) ∈ t.files := by simp [hfiles]
  have hold : f.buf.length ≤ config.limits.maxFileBytes := ht.1 _ hmem
  refine ⟨fun x hx => ?_, ?_⟩
  · rcases mem_cons.mp hx with rfl | hx
    · exact hbuf.trans (max_le hold le_rfl)
    · exact ht.1 x (mem_of_mem_filter hx)
  · -- The written file was there before, so it takes the place of itself.
    have hlength : (t.files.filter (·.1 ≠ h)).length < t.files.length :=
      length_filter_lt_length_iff_exists.mpr ⟨(h, f), hmem, by simp⟩
    have hle := ht.2
    simp only [setFile, length_cons]
    omega

theorem Bounded.close (ht : Bounded config.limits t) (h : ℕ) :
    Bounded config.limits (closeHandle h t).2 := by
  have hle := ht.2
  unfold closeHandle
  cases t.files.lookup h with
  | none =>
    have hlength := length_filter_le (·.1 ≠ h) t.dirs
    exact ⟨ht.1, by dsimp only; omega⟩
  | some f =>
    have hlength := length_filter_le (·.1 ≠ h) t.files
    exact ⟨fun x hx => ht.1 x (mem_of_mem_filter hx), by dsimp only; omega⟩

theorem Bounded.start (ht : Bounded config.limits t) :
    Bounded config.limits (startHandler config r t).2 :=
  startHandler_rule r (P := fun _ => Bounded config.limits) ht (fun _ => ht)
    (fun hroom _ _ => Bounded.registered (t := t.newHandle.2) ht fun _ => ⟨hroom, Nat.zero_le _⟩)
    (fun _ _ _ _ => ht.write) ht.close

/-- **One piece of a handler stays within the limits**, if what is not checked again holds
again. -/
theorem Bounded.resume {w : Suspended} {answer : Answer} (ht : Bounded config.limits t)
    (hrecheck : Rechecked config w answer t) :
    Bounded config.limits (resumeHandler config w answer t).2 := by
  have hcap : ∀ {size}, refuseOverCap config size = .ok () → size ≤ config.limits.maxFileBytes :=
    fun h => not_lt.mp (refuseIf_eq_ok.mp h)
  unfold resumeHandler
  split
  · exact ht.start _
  · exact ht
  · exact ht
  · split
    · exact ht
    · exact ht
    · rename_i hbase
      exact ht.registered fun _ => ⟨hrecheck hbase, Nat.zero_le _⟩
  · exact ht
  · exact ht.registered fun hsession => (hrecheck hsession).imp_right hcap
  · exact ht
  · split <;> exact ht
  · exact ht
  · split
    · exact ht
    · rename_i hfits
      exact ht.registered fun hsession => ⟨hrecheck hfits hsession, hcap hfits⟩
  · exact ht
  · rename_i h entries
    have hroom := overHandleCap_eq_false.mp hrecheck
    refine ⟨ht.1, ?_⟩
    have hlength := length_filter_le (·.1 ≠ t.newHandle.1) t.dirs
    simp only [newHandle, setDir, length_cons] at hlength ⊢
    omega
  · exact ht
  · exact ht
  · exact ht

end Bounds

/-- Every check that is not made again would have passed, all along a schedule. -/
def RecheckedRun (config : SessionConfig) (events : List Event) : Prop :=
  ∀ before i answer after w, events = before ++ .resume i answer :: after →
    (Pipeline.run config before).handlers[i]? = some w →
      Rechecked config w answer (Pipeline.run config before).table

/-- **A session stays within its limits** under every schedule in which, whenever a suspended
open goes on to enter its handle, there is still room for one, and no file read to be written
to has outgrown the cap since its size was checked. -/
theorem withinLimits_of_rechecked (config : SessionConfig) (events : List Event)
    (h : RecheckedRun config events) :
    WithinLimits config.limits (Pipeline.run config events).table := by
  suffices hbounded : Bounded config.limits (Pipeline.run config events).table by
    have hsound := pipeline_bytes config events
    exact ⟨hsound.bytes_eq, hsound.bytes_le, hbounded.1, hbounded.2⟩
  induction events using reverseRecOn with
  | nil => exact ⟨by simp [Pipeline.run, Pipeline.start, empty], Nat.zero_le _⟩
  | append_singleton events event ih =>
    have hbefore := ih fun before i answer after w heq hw =>
      h before i answer (after ++ [event]) w (by simp [heq]) hw
    have hrun : Pipeline.run config (events ++ [event]) =
        (Pipeline.run config events).step config event := by
      simp [Pipeline.run]
    rw [hrun]
    cases event with
    | arrive r => exact hbefore
    | resume i answer =>
      cases hw : (Pipeline.run config events).handlers[i]? with
      | none => simpa only [Pipeline.step, hw] using hbefore
      | some w =>
        have hstep := hbefore.resume (h events i answer [] w rfl hw)
        simpa only [Pipeline.step, hw] using hstep

/-- Two listings asked for at once, where one handle is allowed. -/
def twoListings : List Event :=
  [.arrive (.OPENDIR ['/']), .arrive (.OPENDIR ['/']), .resume 0 (.live (.ok ())),
    .resume 1 (.live (.ok ())), .resume 0 (.list (.ok [])), .resume 0 (.list (.ok []))]

/-- A file opened to be written to, which grows between the look at its size and the read. -/
def grownFile : List Event :=
  [.arrive (.OPEN "/f".toList 2), .resume 0 (.live (.ok ())),
    .resume 0 (.stat (.ok (some ⟨false, 1⟩))), .resume 0 (.read (.ok [1, 2, 3]))]

/-- Both limits can be passed. -/
theorem limits_passed_in_flight :
    ¬WithinLimits ⟨10, 1, 10⟩ (Pipeline.run ⟨⟨10, 1, 10⟩, []⟩ twoListings).table ∧
      ¬WithinLimits ⟨2, 10, 10⟩ (Pipeline.run ⟨⟨2, 10, 10⟩, []⟩ grownFile).table := by
  constructor
  · intro h
    exact absurd h.handles_le (by decide +kernel)
  · intro h
    have hfile : ∃ x ∈ (Pipeline.run ⟨⟨2, 10, 10⟩, []⟩ grownFile).table.files,
        ¬x.2.buf.length ≤ 2 := by
      decide +kernel
    obtain ⟨x, hx, hlong⟩ := hfile
    exact hlong (h.file_le x hx)

/-- The same two listings where two handles are allowed. -/
theorem withinLimits_two_listings :
    WithinLimits ⟨10, 2, 10⟩ (Pipeline.run ⟨⟨10, 2, 10⟩, []⟩ twoListings).table := by
  refine withinLimits_of_rechecked ⟨⟨10, 2, 10⟩, []⟩ twoListings ?_
  intro before i answer after w heq hw
  have htake : before = twoListings.take before.length := by
    rw [heq, take_left]
  have hget : twoListings[before.length]? = some (.resume i answer) := by
    simp [heq]
  have hlength : before.length < 6 := (List.getElem?_eq_some_iff.mp hget).1
  rw [htake] at hw ⊢
  generalize before.length = n at hlength hget hw ⊢
  -- The fence asks for nothing; each listing is entered with room for it.
  interval_cases n
  · cases hget
  · cases hget
  · cases hget
    cases hw
    trivial
  · cases hget
    cases hw
    trivial
  · cases hget
    cases hw
    exact overHandleCap_eq_false.mpr (by decide +kernel)
  · cases hget
    cases hw
    exact overHandleCap_eq_false.mpr (by decide +kernel)

end OpenBooks
