import OpenBooks.Sftp.Frame

/-!
# Spellings of a path

One place has many spellings – slashes repeated or trailing, dots, two dots – and a session should
not care which one a client sends. Storage does not: every operation of both backends goes by the
clean path (`PlaceOnly`). Nor does the published guard. The guard that hides in-flight publishes
does: it looks at the raw text after the last slash, and a temp name followed by a slash or a dot is
not seen.

The other thing a session should not do is leave its root. None of the requests respelled here does,
except that a rename *onto* the root makes sure of the directory above. Reads, listings and writes
are left out: a local write at the root touches the directory above, too.

`spellingIndependent_iff` puts the two together: when two spellings of a request come to the same
answer, the same effect, and no call outside the root.
-/

namespace OpenBooks

open Checked Effect List HandleTable

/-! ### Requests and their spellings -/

def Request.paths : Request → List (List Char)
  | .STAT p | .OPENDIR p | .OPEN p _ | .REMOVE p | .MKDIR p | .RMDIR p | .SETSTAT p => [p]
  | .RENAME source dest => [source, dest]
  | .FSTAT _ | .READDIR _ | .READ .. | .WRITE .. | .CLOSE _ | .FSETSTAT _ => []

def Request.IsHidden (r : Request) : Prop := ∃ p ∈ r.paths, isSftpTempName p = true

def Request.NamesTemp (r : Request) : Prop := ∃ p ∈ r.paths, isSftpTempName (cleanPath p) = true

/-- The same request, with its paths spelled in another way. -/
inductive Respelled : Request → Request → Prop
  | STAT {p q : List Char} (h : cleanPath p = cleanPath q) : Respelled (.STAT p) (.STAT q)
  | OPEN {p q : List Char} (flags : ℕ) (h : cleanPath p = cleanPath q) :
      Respelled (.OPEN p flags) (.OPEN q flags)
  | REMOVE {p q : List Char} (h : cleanPath p = cleanPath q) : Respelled (.REMOVE p) (.REMOVE q)
  | MKDIR {p q : List Char} (h : cleanPath p = cleanPath q) : Respelled (.MKDIR p) (.MKDIR q)
  | RMDIR {p q : List Char} (h : cleanPath p = cleanPath q) : Respelled (.RMDIR p) (.RMDIR q)
  | RENAME {p p' q q' : List Char} (h : cleanPath p = cleanPath q) (h' : cleanPath p' = cleanPath q') :
      Respelled (.RENAME p p') (.RENAME q q')

variable {r r' : Request}

theorem Respelled.namesTemp_iff (h : Respelled r r') : r.NamesTemp ↔ r'.NamesTemp := by
  cases h <;> simp_all [Request.NamesTemp, Request.paths]

/-- What the guard sees is there. -/
theorem Request.IsHidden.namesTemp (h : r.IsHidden) : r.NamesTemp := by
  obtain ⟨p, hp, htemp⟩ := h
  exact ⟨p, hp, (isSftpTempName_cleanPath p).mpr (isTempPlace_of_isSftpTempName htemp)⟩

/-! ### Storage goes by the clean path -/

/-- The error of an operation that may find a folder not empty. -/
def namedError (p : List Char) (e : Option StorageError) : StorageError :=
  e.getD (.directoryNotEmpty p)

/-- A backend whose operations depend on the place a path names, and on its spelling only where
an error names the folder. -/
structure PlaceOnly {σ : Type} (backend : SftpBackend σ) : Prop where
  stat : ∀ {p q}, cleanPath p = cleanPath q → backend.stat p = backend.stat q
  read : ∀ {p q}, cleanPath p = cleanPath q → backend.read p = backend.read q
  remove : ∀ {p q}, cleanPath p = cleanPath q → backend.remove p = backend.remove q
  mkdir : ∀ {p q}, cleanPath p = cleanPath q → backend.mkdir p = backend.mkdir q
  rmdir : ∀ {p q}, cleanPath p = cleanPath q → ∀ s, ∃ (result : Except (Option StorageError) Unit) (s' : σ),
    (backend.rmdir p).outcome s = (result.mapError (namedError p), s') ∧
      (backend.rmdir q).outcome s = (result.mapError (namedError q), s')
  rename : ∀ {p q p' q'}, cleanPath p = cleanPath q → cleanPath p' = cleanPath q' →
    backend.rename p p' = backend.rename q q'

variable (rootDir : RootDir)

theorem localBackend_placeOnly : PlaceOnly (localBackend rootDir.place) := by
  have habs : ∀ p, absolutePath rootDir.place p = .ok (rootDir.place ++ cleanSegments p) :=
    absolutePath_eq rootDir.names rootDir.ne_top
  constructor
  case stat =>
    intro p q h
    simp only [localBackend, habs, h, cleanPath_inj.mp h]
  case read | remove | mkdir =>
    intro p q h
    simp only [localBackend, habs, cleanPath_inj.mp h]
  case rmdir =>
    intro p q h d
    simp only [localBackend, habs, cleanPath_inj.mp h, mapError_ok, check_ok, pure_bind]
    refine ⟨((Disk.rmdir (rootDir.place ++ cleanSegments q)).outcome d).1.mapError fun e =>
      if e.code = some "ENOTEMPTY" then none else some e, _, Prod.ext ?_ rfl, Prod.ext ?_ rfl⟩
    all_goals
      dsimp only
      rw [mapError_mapError, mapFailure, outcome_perform]
      refine congrArg (fun f => Except.mapError f _) (funext fun e => ?_)
      split_ifs <;> rfl
  case rename =>
    intro p q p' q' h h'
    simp only [localBackend, habs, cleanPath_inj.mp h, cleanPath_inj.mp h']

theorem s3Backend_placeOnly (root : TenantRoot) :
    PlaceOnly (s3Backend root.rootPrefix root.orgId) := by
  have hkey := s3Key_eq root.accepted
  constructor
  case stat =>
    intro p q h
    simp only [s3Backend, hkey, h, cleanPath_inj.mp h]
  case read | remove | mkdir =>
    intro p q h
    simp only [s3Backend, hkey, cleanPath_inj.mp h]
  case rmdir =>
    intro p q h b
    simp only [s3Backend, hkey, cleanPath_inj.mp h, mapError_ok, check_ok, pure_bind]
    generalize (if keyAt root.rootPrefix (cleanSegments q) = [] then []
      else keyAt root.rootPrefix (cleanSegments q) ++ ['/']) = marker
    simp only [outcome_bind, Bucket.listObjects, outcome_perform]
    by_cases hchild : ∃ x ∈ (b.objects.filter fun x => marker <+: x.1).take 2, x.1 ≠ marker
    · refine ⟨.error none, b.touch marker, ?_, ?_⟩ <;>
        simp only [refuseIf, if_pos hchild] <;> rfl
    · refine ⟨.ok (), ((Bucket.delete marker).outcome (b.touch marker)).2, ?_, ?_⟩ <;>
        simp only [refuseIf, if_neg hchild] <;> rfl
  case rename =>
    intro p q p' q' h h'
    simp only [s3Backend, hkey, cleanPath_inj.mp h, cleanPath_inj.mp h']

/-! ### Two spellings, one answer -/

section Dispatch

variable {σ : Type} {backend : SftpBackend σ}

theorem checking_error {α : Type} {x : Except Reply α} {refusal : Reply} (h : x = .error refusal)
    (s : Session σ) (next : α → Reply × Session σ) : checking x s next = (refusal, s) := by
  rw [h]
  rfl

theorem denyTemp_eq (p : List Char) :
    denyTemp p = if isSftpTempName p = true then .error (.status .NO_SUCH_FILE none) else .ok () :=
  rfl

/-- A request the guard sees is answered as if its path were not there. -/
theorem dispatch_of_isHidden (hr : Respelled r r') (h : r.IsHidden) (config : SessionConfig)
    (s : Session σ) : dispatch backend config r s = (.status .NO_SUCH_FILE none, s) := by
  cases hr with
  | @STAT p | @REMOVE p | @MKDIR p | @RMDIR p =>
    have htemp : isSftpTempName p = true := by simpa [Request.IsHidden, Request.paths] using h
    exact checking_error (by rw [denyTemp_eq, if_pos htemp]) s _
  | @OPEN p =>
    have htemp : isSftpTempName p = true := by simpa [Request.IsHidden, Request.paths] using h
    exact checking_error (by rw [admitOpen, denyTemp_eq, if_pos htemp]; rfl) s _
  | @RENAME p p' =>
    have htemp : isSftpTempName p = true ∨ isSftpTempName p' = true := by
      simpa [Request.IsHidden, Request.paths] using h
    rw [dispatch, renamePath]
    by_cases hp : isSftpTempName p = true
    · exact checking_error (by rw [denyTemp_eq, if_pos hp]) s _
    · rw [denyTemp_eq, if_neg hp, checking]
      exact checking_error (by rw [denyTemp_eq, if_pos (htemp.resolve_left hp)]) s _

theorem denyPublished_congr (config : SessionConfig) {p q : List Char}
    (h : cleanPath p = cleanPath q) : denyPublished config p = denyPublished config q := by
  have hprotected : isProtectedSftpPath config.readOnlyDirs p =
      isProtectedSftpPath config.readOnlyDirs q := by
    simp only [isProtectedSftpPath, h]
  rw [denyPublished, denyPublished, hprotected]

/-- **Past the guard on temp names, a spelling makes no difference.** -/
theorem dispatch_respelled (hbackend : PlaceOnly backend) (hr : Respelled r r') (h : ¬r.IsHidden)
    (h' : ¬r'.IsHidden) (config : SessionConfig) (s : Session σ) :
    dispatch backend config r s = dispatch backend config r' s := by
  cases hr with
  | @STAT p q hclean =>
    have hp : denyTemp p = denyTemp q := by
      simp_all [Request.IsHidden, Request.paths, denyTemp_eq]
    simp only [dispatch, doStat, hp, hbackend.stat hclean]
  | @OPEN p q flags hclean =>
    have hp : denyTemp p = denyTemp q := by
      simp_all [Request.IsHidden, Request.paths, denyTemp_eq]
    simp only [dispatch, openFile, admitOpen, hp, denyPublished_congr config hclean, writtenFile,
      readingFile, hclean, hbackend.stat hclean, hbackend.read hclean]
  | @REMOVE p q hclean =>
    have hp : denyTemp p = denyTemp q := by
      simp_all [Request.IsHidden, Request.paths, denyTemp_eq]
    simp only [dispatch, wrap, hp, denyPublished_congr config hclean, hbackend.remove hclean]
  | @MKDIR p q hclean =>
    have hp : denyTemp p = denyTemp q := by
      simp_all [Request.IsHidden, Request.paths, denyTemp_eq]
    simp only [dispatch, wrap, hp, denyPublished_congr config hclean, hbackend.mkdir hclean]
  | @RMDIR p q hclean =>
    have hp : denyTemp p = denyTemp q := by
      simp_all [Request.IsHidden, Request.paths, denyTemp_eq]
    obtain ⟨result, s', hresult, hresult'⟩ := hbackend.rmdir hclean s.store
    simp only [dispatch, rmdirPath, hp, denyPublished_congr config hclean, hresult, hresult']
    -- The one error that carries the spelling is reported by the clean path.
    cases result with
    | ok u => rfl
    | error e =>
      cases e with
      | some e => rfl
      | none => simp only [Except.mapError, namedError, Option.getD_none, StorageError.message, hclean]
  | @RENAME p p' q q' hclean hclean' =>
    have hp : denyTemp p = denyTemp q ∧ denyTemp p' = denyTemp q' := by
      simp_all [Request.IsHidden, Request.paths, denyTemp_eq]
    simp only [dispatch, renamePath, hp.1, hp.2, denyPublished_congr config hclean,
      denyPublished_congr config hclean', hbackend.rename hclean hclean']

end Dispatch

/-! ### What is touched -/

/-- All that was asked about since then is at or below a directory. -/
def Disk.StaysUnder (root : VirtualPath) (d d' : Disk) : Prop :=
  ∀ x ∈ d'.touched, x ∈ d.touched ∨ root <+: x

/-- All that was asked about since then is a key prefix or starts with it. -/
def Bucket.StaysUnder (root : List Char) (b b' : Bucket) : Prop :=
  ∀ k ∈ b'.touched, k ∈ b.touched ∨ k = root ∨ root ++ ['/'] <+: k

instance (root : VirtualPath) : IsPreorder Disk (Disk.StaysUnder root) where
  refl _ _ h := Or.inl h
  trans _ _ _ h h' x hx := (h' x hx).elim (h x) Or.inr

instance (root : List Char) : IsPreorder Bucket (Bucket.StaysUnder root) where
  refl _ _ h := Or.inl h
  trans _ _ _ h h' k hk := (h' k hk).elim (h k) Or.inr

namespace Disk

variable {root : VirtualPath} {α : Type}

theorem staysUnder_of_touched {d d' : Disk} {asked : List VirtualPath}
    (h : d'.touched = d.touched ++ asked) (hasked : ∀ x ∈ asked, root <+: x) :
    StaysUnder root d d' := by
  intro x hx
  rw [h, mem_append] at hx
  exact hx.imp_right (hasked x)

@[simp] theorem touched_makeDirs (d : Disk) (p : VirtualPath) :
    (d.makeDirs p).touched = d.touched := by
  unfold makeDirs
  generalize p.inits = places
  induction places generalizing d with
  | nil => rfl
  | cons q places ih =>
    rw [foldl_cons, ih]
    split_ifs <;> rfl

variable (p : VirtualPath)

theorem touched_stat (d : Disk) : ((stat p).outcome d).2.touched = d.touched ++ [p] := by
  rw [stat, outcome_perform]
  split <;> rfl

theorem touched_readFile (d : Disk) : ((readFile p).outcome d).2.touched = d.touched ++ [p] := by
  rw [readFile, outcome_perform]
  split <;> rfl

theorem touched_mkdir (d : Disk) : ((mkdir p).outcome d).2.touched = d.touched ++ [p] := by
  rw [mkdir, outcome_perform]
  split
  · rfl
  · rfl
  · split_ifs
    · rfl
    · simp [touch]

theorem touched_unlink (d : Disk) : ((unlink p).outcome d).2.touched = d.touched ++ [p] := by
  rw [unlink, outcome_perform]
  split <;> rfl

theorem touched_rmdir (d : Disk) : ((rmdir p).outcome d).2.touched = d.touched ++ [p] := by
  rw [rmdir, outcome_perform]
  split
  · split_ifs <;> rfl
  · rfl
  · rfl

theorem touched_rename (source dest : VirtualPath) (d : Disk) :
    ((rename source dest).outcome d).2.touched = d.touched ++ [source, dest] := by
  rw [rename, outcome_perform]
  split
  · simp [touch]
  · split_ifs <;> simp [touch, move]

/-- A call on one place below the root. -/
theorem keeps_staysUnder {m : Effect Disk StorageError α} {p : VirtualPath}
    (h : ∀ d, (m.outcome d).2.touched = d.touched ++ [p]) (hp : root <+: p) :
    Keeps (StaysUnder root) m :=
  fun d => staysUnder_of_touched (h d) (by simpa using hp)

end Disk

/-- A backend whose operations keep storage within a relation, renames as long as they are not
onto the root. -/
structure StaysIn {σ : Type} (backend : SftpBackend σ) (R : σ → σ → Prop) : Prop where
  stat : ∀ p, Keeps R (backend.stat p)
  read : ∀ p, Keeps R (backend.read p)
  remove : ∀ p, Keeps R (backend.remove p)
  mkdir : ∀ p, Keeps R (backend.mkdir p)
  rmdir : ∀ p, Keeps R (backend.rmdir p)
  rename : ∀ source dest, cleanSegments dest ≠ [] → Keeps R (backend.rename source dest)

/-- What a rename asks about: the directory its destination is in, and then, if that is made,
the two places. -/
theorem touched_localBackend_rename (source dest : List Char) (d : Disk) :
    ∃ asked, (((localBackend rootDir.place).rename source dest).outcome d).2.touched =
        d.touched ++ (rootDir.place ++ cleanSegments dest).dropLast :: asked ∧
      ∀ x ∈ asked, rootDir.place <+: x := by
  simp only [localBackend, absolutePath_eq rootDir.names rootDir.ne_top, mapError_ok, check_ok,
    pure_bind, outcome_bind]
  have hmkdir := Disk.touched_mkdir (rootDir.place ++ cleanSegments dest).dropLast d
  split
  · rename_i d₁ heq
    rw [heq] at hmkdir
    refine ⟨[rootDir.place ++ cleanSegments source, rootDir.place ++ cleanSegments dest], ?_,
      by simp⟩
    rw [Disk.touched_rename, hmkdir, append_assoc, singleton_append]
  · rename_i heq
    rw [heq] at hmkdir
    exact ⟨[], hmkdir, by simp⟩

theorem localBackend_staysIn :
    StaysIn (localBackend rootDir.place) (Disk.StaysUnder rootDir.place) := by
  have habs : ∀ p, absolutePath rootDir.place p = .ok (rootDir.place ++ cleanSegments p) :=
    absolutePath_eq rootDir.names rootDir.ne_top
  have hunder : ∀ p, rootDir.place <+: rootDir.place ++ cleanSegments p :=
    fun p => prefix_append _ _
  constructor
  case rename =>
    intro source dest hdest d
    obtain ⟨asked, htouched, hasked⟩ := touched_localBackend_rename rootDir source dest d
    refine Disk.staysUnder_of_touched htouched fun x hx => ?_
    rcases mem_cons.mp hx with rfl | hx
    · rw [dropLast_append_of_ne_nil hdest]
      exact prefix_append _ _
    · exact hasked x hx
  all_goals
    intro p
    simp only [localBackend, habs, mapError_ok, check_ok, pure_bind]
  case stat =>
    split_ifs
    · exact Keeps.pure _
    · intro d
      have hstat := Disk.keeps_staysUnder (Disk.touched_stat _) (hunder p) d
      rw [outcome_perform]
      split <;> (rename_i heq; rwa [heq] at hstat)
  case read =>
    exact Disk.keeps_staysUnder (Disk.touched_readFile _) (hunder p)
  case remove =>
    exact Disk.keeps_staysUnder (Disk.touched_unlink _) (hunder p)
  case mkdir =>
    exact Disk.keeps_staysUnder (Disk.touched_mkdir _) (hunder p)
  case rmdir =>
    exact (Disk.keeps_staysUnder (Disk.touched_rmdir _) (hunder p)).mapFailure _

namespace Bucket

variable {root k : List Char}

/-- A call on one key below the prefix. -/
theorem keeps_staysUnder {α : Type} {m : Effect Bucket StorageError α}
    (h : ∀ b, (m.outcome b).2.touched = b.touched ++ [k]) (hk : k = root ∨ root ++ ['/'] <+: k) :
    Keeps (StaysUnder root) m := by
  intro b x hx
  rw [h, mem_append, mem_singleton] at hx
  rcases hx with hx | rfl
  · exact Or.inl hx
  · exact Or.inr hk

theorem touched_head (b : Bucket) : ((head k).outcome b).2.touched = b.touched ++ [k] := by
  rw [head, outcome_perform]
  split <;> rfl

theorem touched_get (b : Bucket) : ((get k).outcome b).2.touched = b.touched ++ [k] := by
  rw [get, outcome_perform]
  split <;> rfl

theorem keeps_copy_staysUnder {k' : List Char} (hk : k = root ∨ root ++ ['/'] <+: k)
    (hk' : k' = root ∨ root ++ ['/'] <+: k') : Keeps (StaysUnder root) (copy k k') := by
  intro b x hx
  have htouched : ((copy k k').outcome b).2.touched = b.touched ++ [k, k'] := by
    rw [copy, outcome_perform]
    dsimp only
    split
    · simp [touch]
    · split_ifs <;> simp [touch]
  rw [htouched, mem_append, mem_cons, mem_singleton] at hx
  rcases hx with hx | rfl | rfl
  · exact Or.inl hx
  · exact Or.inr hk
  · exact Or.inr hk'

end Bucket

theorem s3Backend_staysIn (root : TenantRoot) :
    StaysIn (s3Backend root.rootPrefix root.orgId) (Bucket.StaysUnder root.rootPrefix) := by
  have hkey := s3Key_eq root.accepted
  have hunder : ∀ p, keyAt root.rootPrefix (cleanSegments p) = root.rootPrefix ∨
      root.rootPrefix ++ ['/'] <+: keyAt root.rootPrefix (cleanSegments p) := by
    intro p
    cases hplace : cleanSegments p with
    | nil => exact Or.inl (by simp [keyAt])
    | cons s rest => exact Or.inr ⟨s ++ rest.flatMap ('/' :: ·), by simp [keyAt]⟩
  have hmarker : ∀ p, root.rootPrefix ++ ['/'] <+: keyAt root.rootPrefix (cleanSegments p) ++ ['/'] := by
    intro p
    rcases hunder p with heq | hle
    · rw [heq]
    · exact hle.trans (prefix_append _ _)
  have hdir : ∀ place, keyAt root.rootPrefix place ≠ [] := by
    intro place hnil
    have hroot := (append_eq_nil_iff.mp hnil).1
    exact ((assertTenantRootPrefix_eq_ok root.accepted).2.1 [] (by simp [hroot])).1 rfl
  constructor
  case rename =>
    intro source dest _
    simp only [s3Backend, hkey, mapError_ok, check_ok, pure_bind]
    exact Keeps.bind (Bucket.keeps_copy_staysUnder (hunder source) (hunder dest)) fun _ =>
      Bucket.keeps_staysUnder (fun _ => rfl) (hunder source)
  all_goals
    intro p
    simp only [s3Backend, hkey, mapError_ok, check_ok, pure_bind, if_neg (hdir _)]
  case stat =>
    split_ifs
    · exact Keeps.pure _
    · intro b
      have hhead := Bucket.keeps_staysUnder Bucket.touched_head (hunder p) b
      rw [outcome_perform]
      split
      · rename_i heq
        rwa [heq] at hhead
      · rename_i b' heq
        rw [heq] at hhead
        have hlist := Bucket.keeps_staysUnder
          (m := Bucket.listObjects (keyAt root.rootPrefix (cleanSegments p) ++ ['/']))
          (fun _ => rfl) (Or.inr (hmarker p)) b'
        refine trans_of _ hhead ?_
        split <;> (rename_i heq'; rwa [heq'] at hlist)
  case read =>
    exact Bucket.keeps_staysUnder Bucket.touched_get (hunder p)
  case remove =>
    exact Bucket.keeps_staysUnder (fun _ => rfl) (hunder p)
  case mkdir =>
    exact Bucket.keeps_staysUnder (fun _ => rfl) (Or.inr (hmarker p))
  case rmdir =>
    have hlist := Bucket.keeps_staysUnder
      (m := Bucket.listObjects (keyAt root.rootPrefix (cleanSegments p) ++ ['/']))
      (fun _ => rfl) (Or.inr (hmarker p))
    exact Keeps.bind hlist fun _ => Keeps.bind (Keeps.check _) fun _ =>
      Bucket.keeps_staysUnder (fun _ => rfl) (Or.inr (hmarker p))

/-- **No request that can be respelled leaves the root**, but for a rename onto it. -/
theorem dispatch_staysIn {σ : Type} {backend : SftpBackend σ} {R : σ → σ → Prop} [IsPreorder σ R]
    (hbackend : StaysIn backend R) (hr : Respelled r r')
    (hrename : ∀ source dest, r = .RENAME source dest → cleanSegments dest ≠ [])
    (config : SessionConfig) (s : Session σ) : R s.store (dispatch backend config r s).2.store := by
  let T : HandleTable → Prop := fun _ => True
  have hT : KeepsOpens config T := ⟨fun _ _ => trivial, fun _ _ _ _ _ _ _ _ _ => trivial⟩
  cases hr with
  | STAT => exact (kept_doStat (T := T) (hbackend.stat _) trivial).1
  | OPEN => exact (kept_openFile hT hbackend.stat hbackend.read trivial).1
  | REMOVE => exact (kept_wrap (T := T) trivial fun _ => hbackend.remove _).1
  | MKDIR => exact (kept_wrap (T := T) trivial fun _ => hbackend.mkdir _).1
  | RMDIR => exact (kept_rmdirPath (T := T) trivial fun _ => hbackend.rmdir _).1
  | @RENAME p p' =>
    exact (kept_renamePath (T := T) trivial fun _ _ =>
      hbackend.rename p p' (hrename p p' rfl) s.store).1

/-! ### When two spellings come to the same -/

/-- Two spellings of a request come to the same on a store: one answer and one effect, nothing
of an in-flight publish, and no call outside a root. -/
structure ComesToSame {σ : Type} (backend : SftpBackend σ) (config : SessionConfig)
    (R : σ → σ → Prop) (r r' : Request) (s : Session σ) : Prop where
  alike : dispatch backend config r s = dispatch backend config r' s
  hidden : r.NamesTemp → dispatch backend config r s = (.status .NO_SUCH_FILE none, s)
  staysIn : R s.store (dispatch backend config r s).2.store

/-- Two spellings of a request come to the same on both stores, under every root a tenant may
have; and no path of theirs is refused for leaving the root. -/
def SpellingIndependent (r r' : Request) : Prop :=
  ∀ (root : TenantRoot) (dataRoot : RootDir) (config : SessionConfig),
    (∀ s : Session Disk, ComesToSame (localBackend (root.below dataRoot).place) config
      (Disk.StaysUnder (root.below dataRoot).place) r r' s) ∧
    (∀ s : Session Bucket, ComesToSame (s3Backend root.rootPrefix root.orgId) config
      (Bucket.StaysUnder root.rootPrefix) r r' s) ∧
    localRoot dataRoot.place root.rootPrefix root.orgId = .ok (root.below dataRoot).place ∧
    ∀ p ∈ r.paths ++ r'.paths,
      (absolutePath (root.below dataRoot).place p).isOk = true ∧
        (s3Key root.rootPrefix root.orgId p).isOk = true

/-- What spelling a request must avoid: a temp name the guard does not see, and the root as a
destination. -/
def GuardsSee (r r' : Request) : Prop :=
  (r.NamesTemp → r.IsHidden ∧ r'.IsHidden) ∧
    ∀ source dest, r = .RENAME source dest → cleanPath dest = ['/'] → isSftpTempName source = true

theorem cleanPath_eq_root {p : List Char} : cleanPath p = ['/'] ↔ cleanSegments p = [] :=
  renderPath_eq_root fun _ hs => isName_of_mem_cleanSegments hs

theorem comesToSame_of_guardsSee {σ : Type} {backend : SftpBackend σ} {R : σ → σ → Prop}
    [IsPreorder σ R] (hplace : PlaceOnly backend) (hstays : StaysIn backend R)
    (hr : Respelled r r') (h : GuardsSee r r') (config : SessionConfig) (s : Session σ) :
    ComesToSame backend config R r r' s := by
  have hsymm : Respelled r' r := by
    cases hr <;> constructor <;> symm <;> assumption
  by_cases htemp : r.NamesTemp
  · obtain ⟨hhidden, hhidden'⟩ := h.1 htemp
    have hanswer : dispatch backend config r s = (.status .NO_SUCH_FILE none, s) :=
      dispatch_of_isHidden hr hhidden config s
    refine ⟨?_, fun _ => hanswer, ?_⟩
    · rw [hanswer, dispatch_of_isHidden hsymm hhidden' config s]
    · rw [hanswer]
      exact refl_of R _
  · have hshown : ¬r.IsHidden := fun hhidden => htemp hhidden.namesTemp
    have hshown' : ¬r'.IsHidden := fun hhidden => htemp (hr.namesTemp_iff.mpr hhidden.namesTemp)
    refine ⟨dispatch_respelled hplace hr hshown hshown' config s, fun h => absurd h htemp, ?_⟩
    refine dispatch_staysIn hstays hr (fun source dest heq hroot => ?_) config s
    refine hshown ⟨source, by simp [heq, Request.paths], ?_⟩
    exact h.2 source dest heq (cleanPath_eq_root.mpr hroot)

theorem isProtectedSftpPath_self {p : List Char} {dirs : List (List Char)} (hp : p ∈ dirs)
    (htemp : isSftpTempName (cleanPath p) = true) : isProtectedSftpPath dirs p = true := by
  refine (isProtectedSftpPath_iff dirs p).mpr ⟨p, hp, ?_, prefix_rfl⟩
  obtain ⟨base, hbase, -⟩ := (isSftpTempName_cleanPath p).mp htemp
  rintro hroot
  simp [hroot] at hbase

theorem denyPublished_eq (config : SessionConfig) (p : List Char) :
    denyPublished config p =
      if isProtectedSftpPath config.readOnlyDirs p = true then
        .error (.status .PERMISSION_DENIED none)
      else .ok () :=
  rfl

/-- A session in which nothing is limited or published. -/
def openConfig : SessionConfig := ⟨⟨0, 0, 0⟩, []⟩

/-- **A temp name the guard does not see gives itself away**: in some session the answer is not
that nothing is there. -/
theorem exists_answer_of_not_isHidden (hr : Respelled r r') (htemp : r.NamesTemp)
    (hshown : ¬r.IsHidden) :
    ∃ (config : SessionConfig) (s : Session Disk),
      (dispatch (localBackend rootDir.place) config r s).1 ≠ .status .NO_SUCH_FILE none := by
  cases hr with
  | @STAT p =>
    have hp : isSftpTempName (cleanPath p) = true := by
      simpa [Request.NamesTemp, Request.paths] using htemp
    have hraw : ¬isSftpTempName p = true := by
      simpa [Request.IsHidden, Request.paths] using hshown
    have hroot : cleanPath p ≠ ['/'] := by
      rintro hroot
      rw [hroot] at hp
      revert hp
      decide
    -- With a file there, its size is told.
    refine ⟨openConfig, ⟨empty, ⟨[(rootDir.place ++ cleanSegments p, .file [])], []⟩⟩, ?_⟩
    simp [dispatch, doStat, denyTemp_eq, hraw, checking, asking, localBackend, hroot,
      absolutePath_eq rootDir.names rootDir.ne_top, mapError_ok, Disk.stat, Disk.at?,
      rootDir.ne_top]
  | @OPEN p q flags =>
    have hraw : ¬isSftpTempName p = true := by
      simpa [Request.IsHidden, Request.paths] using hshown
    refine ⟨openConfig, ⟨empty, ⟨[], []⟩⟩, ?_⟩
    have hrefused : admitOpen openConfig p flags empty =
        .error (handleCapRefusal openConfig) := by
      rw [admitOpen, denyTemp_eq, if_neg hraw]
      rfl
    rw [dispatch, openFile, checking_error hrefused]
    simp [handleCapRefusal]
  | @REMOVE p | @MKDIR p | @RMDIR p =>
    have hp : isSftpTempName (cleanPath p) = true := by
      simpa [Request.NamesTemp, Request.paths] using htemp
    have hraw : ¬isSftpTempName p = true := by
      simpa [Request.IsHidden, Request.paths] using hshown
    have hpublished : isProtectedSftpPath [p] p = true := isProtectedSftpPath_self (by simp) hp
    refine ⟨⟨⟨0, 0, 0⟩, [p]⟩, ⟨empty, ⟨[], []⟩⟩, ?_⟩
    simp [dispatch, wrap, rmdirPath, denyTemp_eq, hraw, checking, denyPublished_eq, hpublished]
  | @RENAME p p' =>
    have hp : isSftpTempName (cleanPath p) = true ∨ isSftpTempName (cleanPath p') = true := by
      simpa [Request.NamesTemp, Request.paths] using htemp
    have hraw : isSftpTempName p = false ∧ isSftpTempName p' = false := by
      simpa [Request.IsHidden, Request.paths] using hshown
    refine ⟨⟨⟨0, 0, 0⟩, [p, p']⟩, ⟨empty, ⟨[], []⟩⟩, ?_⟩
    have hpublished : isProtectedSftpPath [p, p'] p = true ∨ isProtectedSftpPath [p, p'] p' = true :=
      hp.imp (isProtectedSftpPath_self (by simp)) (isProtectedSftpPath_self (by simp))
    by_cases hfirst : isProtectedSftpPath [p, p'] p = true
    · simp [dispatch, renamePath, denyTemp_eq, hraw, checking, denyPublished_eq, hfirst]
    · simp [dispatch, renamePath, denyTemp_eq, hraw, checking, denyPublished_eq, hfirst,
        hpublished.resolve_left hfirst]

/-- **A rename onto the root asks about what is above it.** -/
theorem exists_escape_of_rename_root {source dest : List Char} (hdest : cleanPath dest = ['/'])
    (hsource : ¬isSftpTempName source = true) :
    ∃ (config : SessionConfig) (s : Session Disk),
      ¬Disk.StaysUnder rootDir.place s.store
        (dispatch (localBackend rootDir.place) config (.RENAME source dest) s).2.store := by
  have hroot := cleanPath_eq_root.mp hdest
  have hraw : ¬isSftpTempName dest = true := by
    intro htemp
    obtain ⟨base, hbase, -⟩ := isTempPlace_of_isSftpTempName htemp
    simp [hroot] at hbase
  refine ⟨openConfig, ⟨empty, ⟨[], []⟩⟩, fun hstays => ?_⟩
  obtain ⟨asked, htouched, -⟩ := touched_localBackend_rename rootDir source dest ⟨[], []⟩
  have hstore : (dispatch (localBackend rootDir.place) openConfig (.RENAME source dest)
      ⟨empty, ⟨[], []⟩⟩).2.store =
        (((localBackend rootDir.place).rename source dest).outcome ⟨[], []⟩).2 := by
    have hopen : ∀ p, denyPublished openConfig p = .ok () := fun p => rfl
    rw [dispatch, renamePath, denyTemp_eq, if_neg hsource, denyTemp_eq, if_neg hraw, hopen, hopen]
    simp only [checking, asking]
    split <;> (rename_i heq; rw [heq])
  rw [hstore] at hstays
  rcases hstays rootDir.place.dropLast (by rw [htouched, hroot]; simp) with h | h
  · simp at h
  · have hlength := h.length_le
    have hpos := length_pos_of_ne_nil rootDir.ne_top
    rw [length_dropLast] at hlength
    omega

def someRoot : TenantRoot := ⟨"sftp/o".toList, "o".toList, by decide +kernel⟩

/-- **Two spellings of a request come to the same just when the guards see what they are.** If
one names an in-flight publish, both must end in its name; and the root is not to be a
destination. -/
theorem spellingIndependent_iff {r r' : Request} (hr : Respelled r r') :
    SpellingIndependent r r' ↔ GuardsSee r r' := by
  constructor
  · intro h
    have hlocal := fun config => (h someRoot sampleRootDir config).1
    refine ⟨fun htemp => ⟨?_, ?_⟩, fun source dest heq hdest => ?_⟩
    · by_contra hshown
      obtain ⟨config, s, hanswer⟩ :=
        exists_answer_of_not_isHidden (someRoot.below sampleRootDir) hr htemp hshown
      exact hanswer (by rw [(hlocal config s).hidden htemp])
    · by_contra hshown
      have hsymm : Respelled r' r := by
        cases hr <;> constructor <;> symm <;> assumption
      obtain ⟨config, s, hanswer⟩ := exists_answer_of_not_isHidden (someRoot.below sampleRootDir)
        hsymm (hr.namesTemp_iff.mp htemp) hshown
      exact hanswer (by rw [← (hlocal config s).alike, (hlocal config s).hidden htemp])
    · by_contra hsource
      obtain ⟨config, s, hescape⟩ :=
        exists_escape_of_rename_root (someRoot.below sampleRootDir) hdest hsource
      exact hescape (heq ▸ (hlocal config s).staysIn)
  · intro h root dataRoot config
    refine ⟨fun s => ?_, fun s => ?_, root.localRoot_eq_below dataRoot, fun p _ => ⟨?_, ?_⟩⟩
    · exact comesToSame_of_guardsSee (localBackend_placeOnly _) (localBackend_staysIn _) hr h
        config s
    · exact comesToSame_of_guardsSee (s3Backend_placeOnly root) (s3Backend_staysIn root) hr h
        config s
    · rw [absolutePath_eq (root.below dataRoot).names (root.below dataRoot).ne_top]
      rfl
    · rw [s3Key_eq root.accepted]
      rfl

/-- A slash more, and an in-flight publish can be seen and read. -/
theorem temp_shown_by_trailing_slash :
    let d : Disk := ⟨[(["data".toList], .dir), (["data".toList, "out".toList], .dir),
      (["data".toList, "out".toList, ".f.sftp-part-1".toList], .file [7])], []⟩
    let s : Session Disk := ⟨empty, d⟩
    let config : SessionConfig := ⟨⟨10, 10, 10⟩, []⟩
    let p := "/out/.f.sftp-part-1/".toList
    let q := "/out/.f.sftp-part-1".toList
    cleanPath p = cleanPath q ∧ isSftpTempName (cleanPath p) = true ∧
      (dispatch (localBackend ["data".toList]) config (.STAT p) s).1 = .attrs false 1 ∧
      (dispatch (localBackend ["data".toList]) config (.STAT q) s).1 = .status .NO_SUCH_FILE none ∧
      (dispatch (localBackend ["data".toList]) config (.OPEN p 1) s).1 = .handle 1 ∧
      (dispatch (localBackend ["data".toList]) config (.REMOVE p) s).2.store.at?
        ["data".toList, "out".toList, ".f.sftp-part-1".toList] = none := by
  decide +kernel

/-- A file, its folder spelled with a step back. -/
theorem spellingIndependent_step_back :
    SpellingIndependent (.STAT "/in/file.csv".toList) (.STAT "//in/./old/../file.csv/".toList) := by
  refine (spellingIndependent_iff (.STAT (by decide +kernel))).mpr ⟨fun h => ?_, ?_⟩
  · obtain ⟨p, hp, htemp⟩ := h
    obtain rfl := mem_singleton.mp hp
    exact absurd htemp (by decide +kernel)
  · rintro source dest heq
    cases heq

end OpenBooks
