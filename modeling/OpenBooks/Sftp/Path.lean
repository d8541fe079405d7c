import OpenBooks.Lib.Checked
import Mathlib.Data.List.Infix

/-!
# Session paths

A path a client sends is a text with slashes; what storage sees is a list of names. The way from one
to the other is `cleanSegments` – POSIX normalization of the text below the root, so that an empty
segment or a dot says nothing and two dots take a name back – and `cleanPath` is that list written
out again. A written-out list is read back as itself, so two texts have the same clean path just
when they name the same place (`cleanPath_inj`).

The file also has the two tests a session makes on a path before it touches storage. One, whether a
path lies in a published folder, is made on the clean path (`isProtectedSftpPath_iff`). The other,
whether it names an in-flight publish, is made on the raw text after the last slash
(`isSftpTempName`).
-/

namespace OpenBooks

open Checked List

/-! ### Clean paths -/

/-- A place below the root: the names from the root down. -/
abbrev VirtualPath := List (List Char)

/-- What a segment can be once a path is clean. -/
def IsName (segment : List Char) : Prop :=
  segment ≠ [] ∧ segment ≠ ['.'] ∧ segment ≠ ['.', '.'] ∧ '/' ∉ segment

instance (segment : List Char) : Decidable (IsName segment) :=
  inferInstanceAs (Decidable (_ ∧ _))

/-- One segment of a text: an empty one or a dot stays, two dots go up, a name goes down. -/
def normalizeSegment (place : VirtualPath) (segment : List Char) : VirtualPath :=
  if segment = [] ∨ segment = ['.'] then place
  else if segment = ['.', '.'] then place.dropLast
  else place ++ [segment]

/-- The place a text names; nothing goes above the root. -/
def cleanSegments (p : List Char) : VirtualPath :=
  (p.splitOn '/').foldl normalizeSegment []

/-- A place written out. -/
def renderPath (place : VirtualPath) : List Char :=
  if place = [] then ['/'] else place.flatMap ('/' :: ·)

/-- Normalize a path to a clean, root-relative POSIX path. -/
def cleanPath (p : List Char) : List Char := renderPath (cleanSegments p)

variable {segment : List Char}

theorem normalizeSegment_of_isName (h : IsName segment) (place : VirtualPath) :
    normalizeSegment place segment = place ++ [segment] := by
  rw [normalizeSegment, if_neg (not_or.mpr ⟨h.1, h.2.1⟩), if_neg h.2.2.1]

theorem foldl_normalizeSegment_of_isName {names : VirtualPath} (h : ∀ s ∈ names, IsName s)
    (place : VirtualPath) : names.foldl normalizeSegment place = place ++ names := by
  induction names generalizing place with
  | nil => simp
  | cons s names ih =>
    rw [foldl_cons, normalizeSegment_of_isName (h s (by simp)), ih fun t ht => h t (by simp [ht])]
    simp

variable {place : VirtualPath}

theorem foldl_normalizeSegment_isName {segments : VirtualPath}
    (hsegments : ∀ s ∈ segments, '/' ∉ s) (hplace : ∀ s ∈ place, IsName s) :
    ∀ s ∈ segments.foldl normalizeSegment place, IsName s := by
  induction segments generalizing place with
  | nil => exact hplace
  | cons s segments ih =>
    refine ih (fun t ht => hsegments t (by simp [ht])) ?_
    unfold normalizeSegment
    split_ifs with hstay hup
    · exact hplace
    · exact fun t ht => hplace t (mem_of_mem_dropLast ht)
    · intro t ht
      rcases mem_append.mp ht with ht | ht
      · exact hplace t ht
      · obtain rfl := mem_singleton.mp ht
        obtain ⟨hne, hdot⟩ := not_or.mp hstay
        exact ⟨hne, hdot, hup, hsegments t (by simp)⟩

variable {p : List Char}

theorem notMem_of_mem_splitOn (h : segment ∈ p.splitOn '/') : '/' ∉ segment := by
  induction p generalizing segment with
  | nil =>
    rw [splitOn_nil, mem_singleton] at h
    simp [h]
  | cons c p ih =>
    rw [splitOn_cons_eq_if_modifyHead] at h
    split_ifs at h with hc
    · rcases mem_cons.mp h with rfl | h
      · simp
      · exact ih h
    · cases hp : p.splitOn '/' with
      | nil => simp [hp] at h
      | cons s rest =>
        rw [hp, modifyHead_cons] at h
        rcases mem_cons.mp h with rfl | h
        · have hs : '/' ∉ s := ih (by simp [hp])
          have hne : '/' ≠ c := fun heq => hc (beq_iff_eq.mpr heq.symm)
          simp [hs, hne]
        · exact ih (by simp [hp, h])

theorem isName_of_mem_cleanSegments (h : segment ∈ cleanSegments p) : IsName segment :=
  foldl_normalizeSegment_isName (fun _ hs => notMem_of_mem_splitOn hs) (by simp) segment h

/-! ### Written out and read back -/

theorem splitOn_flatMap (h : ∀ s ∈ place, '/' ∉ s) :
    (place.flatMap ('/' :: ·)).splitOn '/' = [] :: place := by
  induction place with
  | nil => rfl
  | cons s place ih =>
    have hrest := ih fun t ht => h t (by simp [ht])
    have hs : s.splitOn '/' = [s] := splitOn_eq_singleton (h s (by simp))
    rw [flatMap_cons, cons_append]
    cases hplace : place with
    | nil => simp [splitOn_cons_eq_if_modifyHead, hs]
    | cons t rest =>
      rw [← hplace]
      obtain ⟨text, htext⟩ : ∃ text, place.flatMap ('/' :: ·) = '/' :: text :=
        ⟨_, by rw [hplace, flatMap_cons, cons_append]⟩
      rw [htext] at hrest ⊢
      rw [splitOn_cons_eq_if_modifyHead, if_pos (by simp),
        splitOn_append_cons_self_of_not_mem (h s (by simp))]
      rw [splitOn_cons_eq_if_modifyHead, if_pos (by simp)] at hrest
      rw [tail_eq_of_cons_eq hrest]

/-- **A clean path names the place it was made from.** -/
theorem cleanSegments_renderPath (h : ∀ s ∈ place, IsName s) :
    cleanSegments (renderPath place) = place := by
  unfold renderPath cleanSegments
  split_ifs with hroot
  · rw [hroot]
    rfl
  · rw [splitOn_flatMap fun s hs => (h s hs).2.2.2, foldl_cons]
    exact foldl_normalizeSegment_of_isName h []

@[simp] theorem cleanSegments_cleanPath (p : List Char) :
    cleanSegments (cleanPath p) = cleanSegments p :=
  cleanSegments_renderPath fun _ hs => isName_of_mem_cleanSegments hs

/-- **Two texts have one clean path just when they name one place.** -/
theorem cleanPath_inj {q : List Char} :
    cleanPath p = cleanPath q ↔ cleanSegments p = cleanSegments q := by
  constructor
  · intro h
    rw [← cleanSegments_cleanPath p, h, cleanSegments_cleanPath]
  · intro h
    rw [cleanPath, cleanPath, h]

/-! ### In-flight publishes -/

/-- What marks the file name of an in-flight local publish. -/
def SFTP_TEMP_WRITE_MARKER : List Char := ".sftp-part-".toList

/-- A hidden name that carries the marker. -/
def isTempBase (base : List Char) : Bool :=
  ['.'].isPrefixOf base && decide (SFTP_TEMP_WRITE_MARKER <:+: base)

/-- Whether a path names an in-flight publish, by the text after its last slash. -/
def isSftpTempName (p : List Char) : Bool := isTempBase ((p.splitOn '/').getLast?.getD p)

/-- Whether a place is that of an in-flight publish. -/
def IsTempPlace (place : VirtualPath) : Prop := ∃ base ∈ place.getLast?, isTempBase base = true

instance (place : VirtualPath) : Decidable (IsTempPlace place) :=
  inferInstanceAs (Decidable (∃ base ∈ place.getLast?, isTempBase base = true))

theorem isName_of_isTempBase {base : List Char} (hslash : '/' ∉ base) (h : isTempBase base = true) :
    IsName base := by
  simp only [isTempBase, Bool.and_eq_true, decide_eq_true_eq] at h
  have hlength := h.2.length_le
  have hmarker : SFTP_TEMP_WRITE_MARKER.length = 11 := by decide
  rw [hmarker] at hlength
  refine ⟨?_, ?_, ?_, hslash⟩ <;> rintro rfl <;> simp at hlength

theorem isTempPlace_of_isSftpTempName (h : isSftpTempName p = true) :
    IsTempPlace (cleanSegments p) := by
  obtain ⟨before, base, hsplit⟩ : ∃ before base, p.splitOn '/' = before ++ [base] :=
    ⟨_, _, (dropLast_append_getLast (splitOn_ne_nil '/' p)).symm⟩
  rw [isSftpTempName, hsplit] at h
  have htemp : isTempBase base = true := by simpa using h
  have hname := isName_of_isTempBase (notMem_of_mem_splitOn (p := p) (by simp [hsplit])) htemp
  refine ⟨base, ?_, htemp⟩
  rw [cleanSegments, hsplit, foldl_append, foldl_cons, foldl_nil, normalizeSegment_of_isName hname]
  simp

theorem isSftpTempName_cleanPath (p : List Char) :
    isSftpTempName (cleanPath p) = true ↔ IsTempPlace (cleanSegments p) := by
  constructor
  · intro h
    rw [← cleanSegments_cleanPath p]
    exact isTempPlace_of_isSftpTempName h
  · rintro ⟨base, hbase, htemp⟩
    have hplace : cleanSegments p ≠ [] := by
      rintro hroot
      simp [hroot] at hbase
    rw [isSftpTempName, cleanPath, renderPath, if_neg hplace,
      splitOn_flatMap fun s hs => (isName_of_mem_cleanSegments hs).2.2.2,
      List.getLast?_cons_of_ne_nil hplace, Option.mem_def.mp hbase]
    exact htemp

/-! ### Published folders -/

/-- Whether a path falls under a published, read-only folder; an entry that is the root is
ignored. -/
def isProtectedSftpPath (protectedDirs : List (List Char)) (p : List Char) : Bool :=
  protectedDirs.any fun dir =>
    cleanPath dir ≠ ['/'] &&
      (cleanPath p = cleanPath dir || (cleanPath dir ++ ['/']).isPrefixOf (cleanPath p))

/-- A place at or below a read-only folder other than the root. -/
def Published (protectedDirs : List (List Char)) (place : VirtualPath) : Prop :=
  ∃ dir ∈ protectedDirs, cleanSegments dir ≠ [] ∧ cleanSegments dir <+: place

theorem renderPath_eq_root (h : ∀ s ∈ place, IsName s) : renderPath place = ['/'] ↔ place = [] := by
  constructor
  · intro hroot
    have hclean := cleanSegments_renderPath h
    rw [hroot] at hclean
    exact hclean.symm
  · rintro rfl
    rfl

/-- A written-out place with a slash after it starts another just when it is above it. -/
theorem renderPath_prefix_iff {dir : VirtualPath} (hdir : ∀ s ∈ dir, IsName s)
    (hplace : ∀ s ∈ place, IsName s) (hroot : dir ≠ []) :
    renderPath dir ++ ['/'] <+: renderPath place ↔ ∃ s rest, place = dir ++ s :: rest := by
  constructor
  · rintro ⟨text, htext⟩
    have hne : place ≠ [] := by
      rintro rfl
      rw [renderPath, renderPath, if_neg hroot, if_pos rfl] at htext
      have hlength := congrArg List.length htext
      obtain ⟨s, dir, rfl⟩ := exists_cons_of_ne_nil hroot
      simp at hlength
    rw [renderPath, renderPath, if_neg hroot, if_neg hne, append_assoc, singleton_append] at htext
    have hsplit := splitOn_flatMap fun s hs => (hplace s hs).2.2.2
    rw [← htext, splitOn_append_cons_self,
      splitOn_flatMap fun s hs => (hdir s hs).2.2.2, cons_append] at hsplit
    obtain ⟨s, rest, hrest⟩ := exists_cons_of_ne_nil (splitOn_ne_nil '/' text)
    exact ⟨s, rest, by rw [← hrest]; exact (tail_eq_of_cons_eq hsplit).symm⟩
  · rintro ⟨s, rest, rfl⟩
    refine ⟨s ++ rest.flatMap ('/' :: ·), ?_⟩
    rw [renderPath, renderPath, if_neg hroot, if_neg (by simp), flatMap_append, flatMap_cons]
    simp

/-- **The published guard sees the place, not its spelling.** -/
theorem isProtectedSftpPath_iff (protectedDirs : List (List Char)) (p : List Char) :
    isProtectedSftpPath protectedDirs p = true ↔ Published protectedDirs (cleanSegments p) := by
  have hnames : ∀ q : List Char, ∀ s ∈ cleanSegments q, IsName s :=
    fun q s hs => isName_of_mem_cleanSegments hs
  simp only [isProtectedSftpPath, any_eq_true, Bool.and_eq_true, Bool.or_eq_true,
    decide_eq_true_eq, isPrefixOf_iff_prefix, Published]
  refine exists_congr fun dir => and_congr_right fun _ => ?_
  rw [ne_eq, cleanPath, renderPath_eq_root (hnames dir)]
  refine and_congr_right fun hroot => ?_
  rw [show (cleanPath p = renderPath (cleanSegments dir)) = (cleanPath p = cleanPath dir) from rfl,
    cleanPath_inj, cleanPath, renderPath_prefix_iff (hnames dir) (hnames p) hroot]
  constructor
  · rintro (heq | ⟨s, rest, heq⟩)
    · exact heq ▸ prefix_rfl
    · exact heq ▸ prefix_append _ _
  · rintro ⟨rest, heq⟩
    cases rest with
    | nil => exact Or.inl (by simpa using heq.symm)
    | cons s rest => exact Or.inr ⟨s, rest, heq.symm⟩

/-! ### Roots

Where a session's storage lies: below the data directory for the local backend, under the
tenant's key prefix for the object store. -/

/-- What a root or a path that leaves its place is refused with. -/
structure SftpPathError where
  message : String
  deriving DecidableEq

def sftpTenantPrefix (orgId : List Char) : List Char := "sftp/".toList ++ orgId

/-- A tenant may name folders, never physical locations. -/
def assertSafeRootPrefix (rootPrefix : List Char) : Except SftpPathError (List Char) := do
  refuseIf (rootPrefix = []) ⟨"sftp root prefix must not be empty"⟩
  refuseIf ('\\' ∈ rootPrefix) ⟨"sftp root prefix must not contain backslashes"⟩
  refuseIf ('%' ∈ rootPrefix) ⟨"sftp root prefix must not contain percent-encoding"⟩
  refuseIf (['/'] <+: rootPrefix) ⟨"sftp root prefix must be a relative path"⟩
  refuseIf (∃ s ∈ rootPrefix.splitOn '/', s = [] ∨ s = ['.'] ∨ s = ['.', '.'])
    ⟨"sftp root prefix must not contain empty or dot segments"⟩
  return rootPrefix

/-- A root stays inside the owning tenant's namespace. -/
def assertTenantRootPrefix (rootPrefix orgId : List Char) :
    Except SftpPathError (List Char) := do
  refuseIf (orgId = []) ⟨"sftp root prefix requires the owning org id"⟩
  let safe ← assertSafeRootPrefix rootPrefix
  refuseIf (safe ≠ sftpTenantPrefix orgId ∧ ¬sftpTenantPrefix orgId ++ ['/'] <+: safe)
    ⟨"sftp root prefix must stay under " ++ String.ofList (sftpTenantPrefix orgId) ++ "/"⟩
  return safe

/-- `path.resolve` of a relative text against an absolute directory. -/
def resolvePath (dir : VirtualPath) (rel : List Char) : VirtualPath :=
  (rel.splitOn '/').foldl normalizeSegment dir

/-- Refuse a resolved path that is not at or below a directory. -/
def assertUnder (dir full : VirtualPath) : Except SftpPathError Unit :=
  refuseIf (renderPath full ≠ renderPath dir ∧ ¬renderPath dir ++ ['/'] <+: renderPath full)
    ⟨"path escapes root"⟩

/-- The directory of a local session, below the data root. -/
def localRoot (dataRoot : VirtualPath) (rootPrefix orgId : List Char) :
    Except SftpPathError VirtualPath := do
  let safe ← assertTenantRootPrefix rootPrefix orgId
  let resolved := resolvePath dataRoot safe
  assertUnder dataRoot resolved
  return resolved

def absolutePath (rootDir : VirtualPath) (p : List Char) : Except SftpPathError VirtualPath := do
  let rel := (cleanPath p).drop 1
  let full := resolvePath rootDir rel
  assertUnder rootDir full
  return full

/-- A text without the slashes it starts and ends with. -/
def stripSlashes (text : List Char) : List Char :=
  ((text.dropWhile (· = '/')).reverse.dropWhile (· = '/')).reverse

/-- The key of a session path in the object store. -/
def s3Key (rootPrefix orgId p : List Char) : Except SftpPathError (List Char) := do
  let root ← assertTenantRootPrefix rootPrefix orgId
  let rel := (cleanPath p).drop 1
  let full := ['/'].intercalate ([stripSlashes root, rel].filter (· ≠ []))
  refuseIf (full ≠ sftpTenantPrefix orgId ∧ ¬sftpTenantPrefix orgId ++ ['/'] <+: full)
    ⟨"sftp s3 key escapes the tenant prefix"⟩
  return full

theorem splitOn_drop_cleanPath (p : List Char) (h : cleanSegments p ≠ []) :
    ((cleanPath p).drop 1).splitOn '/' = cleanSegments p := by
  have hsplit := splitOn_flatMap fun s hs => (isName_of_mem_cleanSegments (p := p) hs).2.2.2
  obtain ⟨s, rest, hplace⟩ := exists_cons_of_ne_nil h
  rw [cleanPath, renderPath, if_neg h]
  rw [hplace, flatMap_cons, cons_append, splitOn_cons_eq_if_modifyHead, if_pos (by simp)] at hsplit
  rw [hplace, flatMap_cons, cons_append, drop_one, tail_cons, tail_eq_of_cons_eq hsplit]

/-- **A session path resolves to the root and its names below it.** -/
theorem resolvePath_cleanPath (rootDir : VirtualPath) (p : List Char) :
    resolvePath rootDir ((cleanPath p).drop 1) = rootDir ++ cleanSegments p := by
  by_cases h : cleanSegments p = []
  · rw [cleanPath, renderPath, if_pos h, h]
    simp [resolvePath, normalizeSegment]
  · rw [resolvePath, splitOn_drop_cleanPath p h,
      foldl_normalizeSegment_of_isName fun s hs => isName_of_mem_cleanSegments hs]

theorem assertUnder_append {dir : VirtualPath} (hdir : ∀ s ∈ dir, IsName s)
    (hplace : ∀ s ∈ place, IsName s) (hne : dir ≠ []) :
    assertUnder dir (dir ++ place) = .ok () := by
  refine refuseIf_eq_ok.mpr fun hout => ?_
  cases place with
  | nil => exact hout.1 (by simp)
  | cons s place =>
    refine hout.2 ((renderPath_prefix_iff hdir ?_ hne).mpr ⟨s, place, rfl⟩)
    exact fun t ht => (mem_append.mp ht).elim (hdir t) (hplace t)

/-- **No session path escapes a local root.** -/
theorem absolutePath_eq {rootDir : VirtualPath} (hroot : ∀ s ∈ rootDir, IsName s)
    (hne : rootDir ≠ []) (p : List Char) :
    absolutePath rootDir p = .ok (rootDir ++ cleanSegments p) := by
  have hunder := assertUnder_append hroot (fun s hs => isName_of_mem_cleanSegments (p := p) hs) hne
  simp only [absolutePath, resolvePath_cleanPath, hunder]
  rfl

variable {orgId rootPrefix safe : List Char}

theorem assertTenantRootPrefix_eq_ok (h : assertTenantRootPrefix rootPrefix orgId = .ok safe) :
    safe = rootPrefix ∧ (∀ s ∈ rootPrefix.splitOn '/', IsName s) ∧
      (rootPrefix = sftpTenantPrefix orgId ∨ sftpTenantPrefix orgId ++ ['/'] <+: rootPrefix) := by
  simp only [assertTenantRootPrefix, assertSafeRootPrefix, bind_eq_ok, refuseIf_eq_ok,
    pure_eq_ok] at h
  obtain ⟨_, -, safe', ⟨_, -, _, -, _, -, _, -, _, hsegments, rfl⟩, _, htenant, rfl⟩ := h
  refine ⟨rfl, fun s hs => ?_, ?_⟩
  · have hdots := fun hs' => hsegments ⟨s, hs, hs'⟩
    refine ⟨fun h => hdots (Or.inl h), fun h => hdots (Or.inr (Or.inl h)),
      fun h => hdots (Or.inr (Or.inr h)), notMem_of_mem_splitOn hs⟩
  · by_contra hout
    exact htenant (by simpa [not_or] using hout)

/-- **The directory of an accepted root is its names below the data root.** -/
theorem localRoot_eq {dataRoot : VirtualPath} (hdata : ∀ s ∈ dataRoot, IsName s)
    (hne : dataRoot ≠ []) (h : assertTenantRootPrefix rootPrefix orgId = .ok safe) :
    localRoot dataRoot rootPrefix orgId = .ok (dataRoot ++ rootPrefix.splitOn '/') := by
  obtain ⟨rfl, hnames, -⟩ := assertTenantRootPrefix_eq_ok h
  have hresolved : resolvePath dataRoot safe = dataRoot ++ safe.splitOn '/' :=
    foldl_normalizeSegment_of_isName hnames dataRoot
  simp only [localRoot, h, ok_bind, hresolved, assertUnder_append hdata hnames hne]
  rfl

/-- The key of a place under a root prefix. -/
def keyAt (root : List Char) (place : VirtualPath) : List Char :=
  root ++ place.flatMap ('/' :: ·)

theorem stripSlashes_eq {text : List Char} (hnames : ∀ s ∈ text.splitOn '/', IsName s) :
    stripSlashes text = text := by
  have hhead : ∀ rest, text ≠ '/' :: rest := by
    rintro rest rfl
    exact (hnames [] (by simp [splitOn_cons_eq_if_modifyHead])).1 rfl
  have hlast : ∀ before, text ≠ before ++ ['/'] := by
    rintro before rfl
    exact (hnames [] (by simp [splitOn_append_cons_self])).1 rfl
  have hfront : text.dropWhile (· = '/') = text := by
    cases text with
    | nil => rfl
    | cons c rest =>
      refine dropWhile_cons_of_neg ?_
      simpa using fun hc => hhead rest (by rw [hc])
  rw [stripSlashes, hfront]
  cases hreverse : text.reverse with
  | nil => simpa using congrArg List.reverse hreverse.symm
  | cons c rest =>
    have htext : text = rest.reverse ++ [c] := by
      rw [← reverse_reverse text, hreverse, reverse_cons]
    rw [dropWhile_cons_of_neg, htext, reverse_cons]
    simpa using fun hc => hlast rest.reverse (by rw [htext, hc])

/-- **No session path escapes an accepted key prefix.** -/
theorem s3Key_eq (h : assertTenantRootPrefix rootPrefix orgId = .ok safe) (p : List Char) :
    s3Key rootPrefix orgId p = .ok (keyAt rootPrefix (cleanSegments p)) := by
  obtain ⟨rfl, hnames, htenant⟩ := assertTenantRootPrefix_eq_ok h
  have hsafe : safe ≠ [] := by
    rintro rfl
    exact (hnames [] (by simp)).1 rfl
  have hfull : ['/'].intercalate ([safe, (cleanPath p).drop 1].filter (· ≠ [])) =
      keyAt safe (cleanSegments p) := by
    by_cases hplace : cleanSegments p = []
    · simp [cleanPath, renderPath, hplace, keyAt, hsafe, List.intercalate]
    · obtain ⟨s, rest, hsplit⟩ := exists_cons_of_ne_nil hplace
      have hs : s ≠ [] := (isName_of_mem_cleanSegments (p := p) (by simp [hsplit])).1
      simp [cleanPath, renderPath, hsplit, keyAt, hsafe, List.intercalate, hs]
  have hunder : keyAt safe (cleanSegments p) = sftpTenantPrefix orgId ∨
      sftpTenantPrefix orgId ++ ['/'] <+: keyAt safe (cleanSegments p) := by
    rcases htenant with htenant | htenant
    · cases hplace : cleanSegments p with
      | nil => exact Or.inl (by simp [keyAt, htenant])
      | cons s rest => exact Or.inr ⟨s ++ rest.flatMap ('/' :: ·), by simp [keyAt, htenant]⟩
    · exact Or.inr (htenant.trans (prefix_append _ _))
  simp only [s3Key, h, ok_bind, stripSlashes_eq hnames, hfull]
  refine bind_eq_ok.mpr ⟨(), refuseIf_eq_ok.mpr ?_, rfl⟩
  rintro ⟨hne, hnot⟩
  exact hunder.elim hne hnot

/-- A directory below the top of the disk. -/
structure RootDir where
  place : VirtualPath
  names : ∀ s ∈ place, IsName s
  ne_top : place ≠ []

/-- A directory for sessions. -/
def sampleRootDir : RootDir := ⟨["data".toList], by decide, by decide⟩

structure TenantRoot where
  rootPrefix : List Char
  orgId : List Char
  accepted : assertTenantRootPrefix rootPrefix orgId = .ok rootPrefix

def TenantRoot.below (root : TenantRoot) (dataRoot : RootDir) : RootDir where
  place := dataRoot.place ++ root.rootPrefix.splitOn '/'
  names s hs := (List.mem_append.mp hs).elim (dataRoot.names s)
    ((assertTenantRootPrefix_eq_ok root.accepted).2.1 s)
  ne_top := by simp [dataRoot.ne_top]

theorem TenantRoot.localRoot_eq_below (root : TenantRoot) (dataRoot : RootDir) :
    localRoot dataRoot.place root.rootPrefix root.orgId = .ok (root.below dataRoot).place :=
  localRoot_eq dataRoot.names dataRoot.ne_top root.accepted

/-! ### Tenants -/

/-- An accepted root begins with the tenant's own names. -/
theorem TenantRoot.rootPrefix_eq (root : TenantRoot) :
    ∃ rest, root.rootPrefix = "sftp".toList ++ '/' :: (root.orgId ++ rest) ∧
      (rest = [] ∨ ∃ more, rest = '/' :: more) := by
  rcases (assertTenantRootPrefix_eq_ok root.accepted).2.2 with heq | ⟨more, hmore⟩
  · exact ⟨[], by rw [heq, append_nil]; rfl, .inl rfl⟩
  · exact ⟨'/' :: more, by rw [← hmore, append_assoc]; rfl, .inr ⟨more, rfl⟩⟩

/-- The tenant of a text below its prefix is the text up to the next slash. -/
theorem takeWhile_tenant {tenant rest : List Char} (h : '/' ∉ tenant)
    (hrest : rest = [] ∨ ∃ more, rest = '/' :: more) :
    (tenant ++ rest).takeWhile (· ≠ '/') = tenant := by
  have htenant : ∀ c ∈ tenant, decide (c ≠ '/') = true := fun c hc =>
    decide_eq_true fun heq => h (heq ▸ hc)
  rw [takeWhile_append_of_pos htenant]
  obtain rfl | ⟨more, rfl⟩ := hrest <;> simp

theorem TenantRoot.splitOn_rootPrefix (root : TenantRoot) (h : '/' ∉ root.orgId) :
    ∃ names, root.rootPrefix.splitOn '/' = "sftp".toList :: root.orgId :: names := by
  obtain ⟨rest, heq, rfl | ⟨more, rfl⟩⟩ := root.rootPrefix_eq
  · rw [heq, append_nil, splitOn_append_cons_self_of_not_mem (by decide), splitOn_eq_singleton h]
    exact ⟨[], rfl⟩
  · rw [heq, splitOn_append_cons_self_of_not_mem (by decide), splitOn_append_cons_self_of_not_mem h]
    exact ⟨_, rfl⟩

/-- The tenant of a key, and of what lies below the key. -/
theorem TenantRoot.tenant_of_key (root : TenantRoot) (h : '/' ∉ root.orgId) (place : VirtualPath)
    {rest : List Char} (hrest : rest = [] ∨ ∃ more, rest = '/' :: more) :
    ((keyAt root.rootPrefix place ++ rest).drop 5).takeWhile (· ≠ '/') = root.orgId := by
  obtain ⟨below, heq, hbelow⟩ := root.rootPrefix_eq
  have hplace : place.flatMap ('/' :: ·) ++ rest = [] ∨
      ∃ more, place.flatMap ('/' :: ·) ++ rest = '/' :: more := by
    cases place with
    | nil => exact hrest
    | cons s place => exact .inr ⟨_, rfl⟩
  rw [keyAt, heq]
  change ((root.orgId ++ below ++ _) ++ rest).takeWhile _ = _
  rw [append_assoc, append_assoc]
  refine takeWhile_tenant h ?_
  obtain rfl | ⟨more, rfl⟩ := hbelow
  · exact hplace
  · exact .inr ⟨_, rfl⟩

/-- **Tenants are kept apart**: no session path of one organization is one of another's or lies
below it, neither on disk nor in the object store, wherever the two have their roots. -/
theorem tenants_are_apart (root other : TenantRoot) (hroot : '/' ∉ root.orgId)
    (hother : '/' ∉ other.orgId) (hne : root.orgId ≠ other.orgId) (dataRoot : RootDir)
    (p q : List Char) :
    (∃ here there, absolutePath (root.below dataRoot).place p = .ok here ∧
      absolutePath (other.below dataRoot).place q = .ok there ∧ ¬here <+: there) ∧
    ∃ here there, s3Key root.rootPrefix root.orgId p = .ok here ∧
      s3Key other.rootPrefix other.orgId q = .ok there ∧
      here ≠ there ∧ ¬here ++ ['/'] <+: there := by
  have hdisk := absolutePath_eq (root.below dataRoot).names (root.below dataRoot).ne_top p
  have hdisk' := absolutePath_eq (other.below dataRoot).names (other.below dataRoot).ne_top q
  refine ⟨⟨_, _, hdisk, hdisk', fun h => ?_⟩, _, _, s3Key_eq root.accepted p,
    s3Key_eq other.accepted q, fun heq => ?_, ?_⟩
  · obtain ⟨names, hnames⟩ := root.splitOn_rootPrefix hroot
    obtain ⟨names', hnames'⟩ := other.splitOn_rootPrefix hother
    simp only [TenantRoot.below, append_assoc, prefix_append_right_inj, hnames, hnames',
      cons_append, cons_prefix_cons] at h
    exact hne h.2.1
  · have hhere := root.tenant_of_key hroot (cleanSegments p) (.inl rfl)
    rw [append_nil, heq, ← append_nil (keyAt _ _), other.tenant_of_key hother _ (.inl rfl)] at hhere
    exact hne hhere.symm
  · rintro ⟨more, heq⟩
    have hhere := root.tenant_of_key hroot (cleanSegments p) (.inr ⟨more, rfl⟩)
    rw [← singleton_append, ← append_assoc, heq, ← append_nil (keyAt _ _),
      other.tenant_of_key hother _ (.inl rfl)] at hhere
    exact hne hhere.symm

theorem tenants_are_apart_sample :
    ∃ here there, s3Key "sftp/a".toList "a".toList "x".toList = .ok here ∧
      s3Key "sftp/ab".toList "ab".toList "/../x".toList = .ok there ∧
      here ≠ there ∧ ¬here ++ ['/'] <+: there :=
  (tenants_are_apart ⟨"sftp/a".toList, "a".toList, by decide⟩
    ⟨"sftp/ab".toList, "ab".toList, by decide⟩ (by decide) (by decide) (by decide) sampleRootDir
    "x".toList "/../x".toList).2

end OpenBooks
