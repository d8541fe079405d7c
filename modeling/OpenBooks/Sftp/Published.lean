import OpenBooks.Sftp.Frame

/-!
# Published folders

Whether a session can change what the system has published in a read-only folder. Every
request that changes storage is refused if it names a path in such a folder, and a file open
for writing was refused when it was opened; what is left is an operation that changes more
than the path it names. There is one: a rename on disk takes along all that is below its
source, so renaming a folder *above* a published one moves the published one with it, and
renaming a folder to where one above a published one would be puts things into it.

`RenameReaches` says when a rename does so, and every run without such a rename
leaves all that is published as it was (`local_published_unchanged`). In an object
store a rename moves one key, and no condition is needed
(`s3_published_unchanged`).
-/

namespace OpenBooks

open Checked Effect List Disk Bucket HandleTable

/-! ### What a disk call leaves alone -/

variable {x : VirtualPath}

namespace Disk

theorem lookup_filter_ne {α β : Type} [BEq α] [LawfulBEq α] [DecidableEq α] {p x : α} (h : x ≠ p)
    (l : List (α × β)) :
    (l.filter (·.1 ≠ p)).lookup x = l.lookup x := by
  induction l with
  | nil => rfl
  | cons y l ih =>
    obtain ⟨k, v⟩ := y
    by_cases hk : k = p
    · have hx : (x == k) = false := by simpa [hk] using h
      rw [filter_cons_of_neg (by simpa using hk), ih, lookup_cons, hx]
    · rw [filter_cons_of_pos (by simpa using hk), lookup_cons, lookup_cons, ih]

variable {p : VirtualPath}

theorem at?_put_of_ne (h : x ≠ p) (d : Disk) (node : DiskNode) :
    (d.put p node).at? x = d.at? x := by
  have hx : (x == p) = false := by simpa using h
  simp only [at?, put, lookup_cons, hx, lookup_filter_ne h]

theorem at?_erase_of_ne (h : x ≠ p) (d : Disk) : (d.erase p).at? x = d.at? x := by
  simp only [at?, erase, lookup_filter_ne h]

/-- Making directories changes nothing off the way to them. -/
theorem at?_makeDirs (h : ¬x <+: p) (d : Disk) : (d.makeDirs p).at? x = d.at? x := by
  have hne : ∀ q ∈ p.inits, x ≠ q := by
    rintro q hq rfl
    exact h ((mem_inits _ _).mp hq)
  unfold makeDirs
  generalize p.inits = places at hne
  induction places generalizing d with
  | nil => rfl
  | cons q places ih =>
    rw [foldl_cons, ih _ fun q' hq' => hne q' (by simp [hq'])]
    split_ifs
    · exact at?_put_of_ne (hne q (by simp)) d .dir
    · rfl

/-- Moving a subtree changes a place neither on the way out nor on the way in. -/
theorem at?_move {d : Disk} {source dest : VirtualPath} (hdest : x ≠ dest)
    (hkeys : ∀ y ∈ d.nodes, source <+: y.1 → y.1 ≠ x ∧ dest ++ y.1.drop source.length ≠ x) :
    (d.move source dest).at? x = d.at? x := by
  suffices hlookup : ((d.nodes.filter (·.1 ≠ dest)).map fun y =>
      (movedKey source dest y.1, y.2)).lookup x = d.nodes.lookup x by
    rw [at?, at?, move, hlookup]
  rw [← lookup_filter_ne hdest d.nodes]
  have hkept : ∀ y ∈ d.nodes.filter (·.1 ≠ dest), source <+: y.1 →
      y.1 ≠ x ∧ dest ++ y.1.drop source.length ≠ x :=
    fun y hy => hkeys y (mem_of_mem_filter hy)
  generalize d.nodes.filter (·.1 ≠ dest) = kept at hkept
  induction kept with
  | nil => rfl
  | cons y kept ih =>
    obtain ⟨key, node⟩ := y
    rw [map_cons, lookup_cons, lookup_cons, ih fun z hz => hkept z (by simp [hz])]
    have hy := hkept (key, node) (by simp)
    -- Found here after the move just when it was found here before.
    have hsame : (x == movedKey source dest key) = (x == key) := by
      unfold movedKey
      split_ifs with hsource
      · obtain ⟨hout, hin⟩ := hy hsource
        rw [beq_eq_false_iff_ne.mpr (Ne.symm hout), beq_eq_false_iff_ne.mpr (Ne.symm hin)]
      · rfl
    rw [hsame]

/-- Two disks with the same at every place of a set. -/
def SameAt (P : VirtualPath → Prop) (d d' : Disk) : Prop := ∀ x, P x → d'.at? x = d.at? x

instance (P : VirtualPath → Prop) : IsPreorder Disk (SameAt P) where
  refl _ _ _ := rfl
  trans _ _ _ h h' x hx := (h' x hx).trans (h x hx)

variable {P : VirtualPath → Prop} {p source dest : VirtualPath}

theorem keeps_stat : Keeps (SameAt P) (stat p) := by
  intro d x _
  rw [stat, outcome_perform]
  split <;> rfl

theorem keeps_readFile : Keeps (SameAt P) (readFile p) := by
  intro d x _
  rw [readFile, outcome_perform]
  split <;> rfl

theorem keeps_readdir : Keeps (SameAt P) (readdir p) := by
  intro d x _
  rw [readdir, outcome_perform]
  split <;> rfl

theorem keeps_mkdir (hp : ∀ x, P x → ¬x <+: p) : Keeps (SameAt P) (mkdir p) := by
  intro d x hx
  rw [mkdir, outcome_perform]
  split
  · rfl
  · rfl
  · split
    · rfl
    · rw [at?_makeDirs (hp x hx)]
      rfl

theorem keeps_unlink (hp : ¬P p) : Keeps (SameAt P) (unlink p) := by
  intro d x hx
  have hne : x ≠ p := fun h => hp (h ▸ hx)
  rw [unlink, outcome_perform]
  split
  · exact at?_erase_of_ne hne _
  · rfl
  · rfl

theorem keeps_rmdir (hp : ¬P p) : Keeps (SameAt P) (rmdir p) := by
  intro d x hx
  have hne : x ≠ p := fun h => hp (h ▸ hx)
  rw [rmdir, outcome_perform]
  split
  · split
    · rfl
    · exact at?_erase_of_ne hne _
  · rfl
  · rfl

theorem keeps_publish (hp : ¬P p) (data : Data) : Keeps (SameAt P) (publish p data) := by
  intro d x hx
  have hne : x ≠ p := fun h => hp (h ▸ hx)
  rw [publish, outcome_perform]
  split
  · rfl
  · exact at?_put_of_ne hne _ _

/-- **A rename that goes through takes a subtree with it**, and nothing else: it stays clear of
a set of places if what is in the subtree neither is nor comes to be there. -/
theorem sameAt_rename {d : Disk} (hdest : ¬P dest)
    (hclear : ¬source <+: dest → ¬dest <+: source → ∀ rest,
      (d.at? (source ++ rest)).isSome → ¬P (source ++ rest) ∧ ¬P (dest ++ rest)) :
    SameAt P d ((rename source dest).outcome d).2 := by
  intro x hx
  rw [rename, outcome_perform]
  split
  · rfl
  · rename_i hrefusal
    split_ifs with hsame
    · rfl
    have hne : x ≠ dest := fun h => hdest (h ▸ hx)
    have hapart : ¬source <+: dest ∧ ¬dest <+: source := by
      unfold renameRefusal at hrefusal
      split at hrefusal
      · cases hrefusal
      · rw [if_neg hsame] at hrefusal
        by_cases h₁ : source <+: dest
        · rw [if_pos h₁] at hrefusal
          cases hrefusal
        by_cases h₂ : dest <+: source
        · rw [if_neg h₁, if_pos h₂] at hrefusal
          cases hrefusal
        exact ⟨h₁, h₂⟩
    refine at?_move hne fun y hy hsource => ?_
    obtain ⟨rest, hrest⟩ := hsource
    have hthere : (d.at? (source ++ rest)).isSome := by
      unfold at?
      split_ifs
      · rfl
      · rw [hrest, lookup_isSome_iff]
        exact ⟨y, hy, by simp⟩
    obtain ⟨hout, hin⟩ := hclear hapart.1 hapart.2 rest hthere
    rw [← hrest, drop_left]
    exact ⟨fun h => hout (h ▸ hx), fun h => hin (h ▸ hx)⟩

end Disk

/-! ### What a key call leaves alone -/

namespace Bucket

/-- Two object stores with the same at every key of a set. -/
def SameAt (P : List Char → Prop) (b b' : Bucket) : Prop := ∀ k, P k → b'.at? k = b.at? k

instance (P : List Char → Prop) : IsPreorder Bucket (SameAt P) where
  refl _ _ _ := rfl
  trans _ _ _ h h' k hk := (h' k hk).trans (h k hk)

variable {P : List Char → Prop} {k source dest : List Char}

theorem keeps_head : Keeps (SameAt P) (head k) := by
  intro b k' _
  rw [head, outcome_perform]
  split <;> rfl

theorem keeps_get : Keeps (SameAt P) (get k) := by
  intro b k' _
  rw [get, outcome_perform]
  split <;> rfl

theorem keeps_listObjects : Keeps (SameAt P) (listObjects k) := fun _ _ _ => rfl

theorem lookup_put_of_ne {k' : List Char} (h : k' ≠ k) (b : Bucket) (data : Data) :
    ((k, data) :: b.objects.filter (·.1 ≠ k)).lookup k' = b.objects.lookup k' := by
  have hbeq : (k' == k) = false := by simpa using h
  simp only [lookup_cons, hbeq, lookup_filter_ne h]

theorem keeps_put (hk : ¬P k) (data : Data) : Keeps (SameAt P) (put k data) := by
  intro b k' hk'
  have hne : k' ≠ k := fun h => hk (h ▸ hk')
  exact lookup_put_of_ne hne b data

theorem keeps_delete (hk : ¬P k) : Keeps (SameAt P) (delete k) := by
  intro b k' hk'
  have hne : k' ≠ k := fun h => hk (h ▸ hk')
  exact lookup_filter_ne hne _

theorem keeps_copy (hdest : ¬P dest) : Keeps (SameAt P) (copy source dest) := by
  intro b k' hk'
  have hne : k' ≠ dest := fun h => hdest (h ▸ hk')
  rw [copy, outcome_perform]
  dsimp only
  split
  · rfl
  · split_ifs
    · rfl
    · exact lookup_put_of_ne hne b _

end Bucket

/-! ### The backends behind the guard -/

/-- A backend that changes nothing it should not, as long as no path it is given is guarded
and every rename is a safe one. -/
structure Protects {σ : Type} (backend : SftpBackend σ) (R : σ → σ → Prop)
    (guarded : List Char → Prop) (SafeRename : σ → List Char → List Char → Prop) : Prop where
  list : ∀ p, Keeps R (backend.list p)
  stat : ∀ p, Keeps R (backend.stat p)
  read : ∀ p, Keeps R (backend.read p)
  write : ∀ p data, ¬guarded p → Keeps R (backend.write p data)
  remove : ∀ p, ¬guarded p → Keeps R (backend.remove p)
  mkdir : ∀ p, ¬guarded p → Keeps R (backend.mkdir p)
  rmdir : ∀ p, ¬guarded p → Keeps R (backend.rmdir p)
  rename : ∀ source dest s, ¬guarded source → ¬guarded dest → SafeRename s source dest →
    R s ((backend.rename source dest).outcome s).2

/-- The places of a disk that are in a published folder. -/
def PublishedPlace (readOnlyDirs : List (List Char)) (rootDir x : VirtualPath) : Prop :=
  ∃ place, x = rootDir ++ place ∧ Published readOnlyDirs place

/-- A rename that takes something out of a published folder, or puts something into one,
though neither of its paths is in one. -/
def RenameReaches (readOnlyDirs : List (List Char)) (rootDir : VirtualPath) (d : Disk)
    (source dest : List Char) : Prop :=
  ¬cleanSegments source <+: cleanSegments dest ∧ ¬cleanSegments dest <+: cleanSegments source ∧
    ∃ rest, (d.at? (rootDir ++ cleanSegments source ++ rest)).isSome ∧
      (Published readOnlyDirs (cleanSegments source ++ rest) ∨
        Published readOnlyDirs (cleanSegments dest ++ rest))

variable {readOnlyDirs : List (List Char)} {place : VirtualPath} {rootDir : VirtualPath}

theorem publishedPlace_append :
    PublishedPlace readOnlyDirs rootDir (rootDir ++ place) ↔ Published readOnlyDirs place := by
  constructor
  · rintro ⟨place', heq, h⟩
    rwa [append_cancel_left heq]
  · exact fun h => ⟨place, rfl, h⟩

theorem Published.of_prefix {place' : VirtualPath} (h : Published readOnlyDirs place)
    (hbelow : place <+: place') : Published readOnlyDirs place' := by
  obtain ⟨dir, hdir, hne, hle⟩ := h
  exact ⟨dir, hdir, hne, hle.trans hbelow⟩

theorem not_prefix_of_publishedPlace {q : VirtualPath} (h : ¬Published readOnlyDirs place)
    (hq : q <+: rootDir ++ place) (hx : PublishedPlace readOnlyDirs rootDir x) : ¬x <+: q := by
  obtain ⟨place', rfl, hplace'⟩ := hx
  intro hle
  exact h (hplace'.of_prefix ((prefix_append_right_inj rootDir).mp (hle.trans hq)))

/-- **A directory on disk is protected**, up to the renames that reach into a published folder
from above. -/
theorem localBackend_protects (rootDir : RootDir) (readOnlyDirs : List (List Char)) :
    Protects (localBackend rootDir.place)
      (Disk.SameAt (PublishedPlace readOnlyDirs rootDir.place))
      (fun p => isProtectedSftpPath readOnlyDirs p = true)
      (fun d source dest => ¬RenameReaches readOnlyDirs rootDir.place d source dest) := by
  have habs : ∀ p, absolutePath rootDir.place p = .ok (rootDir.place ++ cleanSegments p) :=
    absolutePath_eq rootDir.names rootDir.ne_top
  have hplace : ∀ p, ¬isProtectedSftpPath readOnlyDirs p = true →
      ¬Published readOnlyDirs (cleanSegments p) :=
    fun p hp => (isProtectedSftpPath_iff readOnlyDirs p).not.mp hp
  have hnot : ∀ p, ¬isProtectedSftpPath readOnlyDirs p = true →
      ¬PublishedPlace readOnlyDirs rootDir.place (rootDir.place ++ cleanSegments p) :=
    fun p hp h => hplace p hp (publishedPlace_append.mp h)
  have hparent : ∀ p, ¬isProtectedSftpPath readOnlyDirs p = true → ∀ x,
      PublishedPlace readOnlyDirs rootDir.place x →
        ¬x <+: (rootDir.place ++ cleanSegments p).dropLast :=
    fun p hp x hx =>
      not_prefix_of_publishedPlace (hplace p hp) (List.dropLast_prefix _) hx
  constructor
  case rename =>
    intro source dest d hsource hdest hsafe
    simp only [localBackend, habs, mapError_ok, check_ok, pure_bind]
    have hmkdir := keeps_mkdir (hparent dest hdest) d
    rw [outcome_bind]
    split
    · rename_i d₁ hd₁
      rw [hd₁] at hmkdir
      refine trans_of _ hmkdir (sameAt_rename (hnot dest hdest) fun hout hin rest hrest => ?_)
      -- The directories just made are above the destination, so none is in the subtree.
      have hsame := keeps_mkdir (P := fun x => rootDir.place ++ cleanSegments source <+: x)
        (fun x hx hle => hout (hx.trans (hle.trans (List.dropLast_prefix _)))) d
      rw [hd₁] at hsame
      rw [hsame _ (prefix_append _ _)] at hrest
      by_contra hreach
      refine hsafe ⟨?_, ?_, rest, hrest, ?_⟩
      · exact fun h => hout ((prefix_append_right_inj _).mpr h)
      · exact fun h => hin ((prefix_append_right_inj _).mpr h)
      · by_contra hneither
        rw [not_or] at hneither
        rw [append_assoc, append_assoc, publishedPlace_append, publishedPlace_append] at hreach
        exact hreach hneither
    · rename_i hd₁
      rwa [hd₁] at hmkdir
  all_goals
    intro p
    simp only [localBackend, habs, mapError_ok, check_ok, pure_bind]
  case list =>
    refine Keeps.bind (fun d => ?_) fun _ => Keeps.pure _
    have hread := keeps_readdir (P := PublishedPlace readOnlyDirs rootDir.place)
      (p := rootDir.place ++ cleanSegments p) d
    rw [outcome_perform]
    split
    · rename_i heq
      rwa [heq] at hread
    · exact hread
  case stat =>
    split_ifs
    · exact Keeps.pure _
    · intro d
      have hread := keeps_stat (P := PublishedPlace readOnlyDirs rootDir.place)
        (p := rootDir.place ++ cleanSegments p) d
      rw [outcome_perform]
      split <;> (rename_i heq; rwa [heq] at hread)
  case read =>
    exact keeps_readFile
  case write =>
    intro data hp
    exact Keeps.bind (keeps_mkdir (hparent p hp)) fun _ =>
      keeps_publish (hnot p hp) data
  case remove =>
    intro hp
    exact keeps_unlink (hnot p hp)
  case mkdir =>
    intro hp
    exact keeps_mkdir fun x hx =>
      not_prefix_of_publishedPlace (hplace p hp) prefix_rfl hx
  case rmdir =>
    intro hp
    exact (keeps_rmdir (hnot p hp)).mapFailure _

/-- The keys of an object store that are in a published folder. -/
def PublishedKey (readOnlyDirs : List (List Char)) (root k : List Char) : Prop :=
  ∃ dir ∈ readOnlyDirs, cleanSegments dir ≠ [] ∧
    (k = keyAt root (cleanSegments dir) ∨ keyAt root (cleanSegments dir) ++ ['/'] <+: k)

theorem splitOn_flatMap_slash (h : ∀ s ∈ place, '/' ∉ s) :
    (place.flatMap ('/' :: ·) ++ ['/']).splitOn '/' = [] :: (place ++ [[]]) := by
  rw [splitOn_append_cons_self, splitOn_flatMap h]
  rfl

theorem not_publishedKey {p : List Char} (root : List Char)
    (h : ¬Published readOnlyDirs (cleanSegments p)) :
    ¬PublishedKey readOnlyDirs root (keyAt root (cleanSegments p)) ∧
      ¬PublishedKey readOnlyDirs root (keyAt root (cleanSegments p) ++ ['/']) := by
  have hslash : ∀ q : List Char, ∀ s ∈ cleanSegments q, '/' ∉ s :=
    fun q s hs => (isName_of_mem_cleanSegments hs).2.2.2
  constructor
  · rintro ⟨dir, hdir, hne, hkey | ⟨text, htext⟩⟩
    · have hsplit := congrArg (List.splitOn '/') (append_cancel_left hkey)
      rw [splitOn_flatMap (hslash p), splitOn_flatMap (hslash dir)] at hsplit
      exact h ⟨dir, hdir, hne, by rw [tail_eq_of_cons_eq hsplit]⟩
    · rw [keyAt, keyAt, append_assoc, append_assoc] at htext
      have hsplit := congrArg (List.splitOn '/') (append_cancel_left htext)
      rw [singleton_append, splitOn_append_cons_self, splitOn_flatMap (hslash dir),
        splitOn_flatMap (hslash p), cons_append] at hsplit
      exact h ⟨dir, hdir, hne, _, tail_eq_of_cons_eq hsplit⟩
  · rintro ⟨dir, hdir, hne, hkey | ⟨text, htext⟩⟩
    · rw [keyAt, keyAt, append_assoc] at hkey
      have hsplit := congrArg (List.splitOn '/') (append_cancel_left hkey)
      rw [splitOn_flatMap_slash (hslash p), splitOn_flatMap (hslash dir)] at hsplit
      have hempty : [] ∈ cleanSegments dir := by
        rw [← tail_eq_of_cons_eq hsplit]
        simp
      exact (isName_of_mem_cleanSegments hempty).1 rfl
    · rw [keyAt, keyAt, append_assoc, append_assoc, append_assoc] at htext
      have hsplit := congrArg (List.splitOn '/') (append_cancel_left htext)
      rw [singleton_append, splitOn_append_cons_self, splitOn_flatMap (hslash dir),
        splitOn_flatMap_slash (hslash p), cons_append] at hsplit
      have htail := tail_eq_of_cons_eq hsplit
      -- What comes after the folder is at least the empty text after the last slash.
      have hlength : (cleanSegments dir).length ≤ (cleanSegments p).length := by
        have hpos := length_pos_of_ne_nil (splitOn_ne_nil '/' text)
        have htotal := congrArg List.length htail
        simp only [length_append, length_singleton] at htotal
        omega
      exact h ⟨dir, hdir, hne, prefix_of_prefix_length_le ⟨_, htail⟩ (prefix_append _ _) hlength⟩

/-- **A key prefix of an object store is protected**: every call names the one key it
changes. -/
theorem s3Backend_protects (root : TenantRoot) (readOnlyDirs : List (List Char)) :
    Protects (s3Backend root.rootPrefix root.orgId)
      (Bucket.SameAt (PublishedKey readOnlyDirs root.rootPrefix))
      (fun p => isProtectedSftpPath readOnlyDirs p = true) (fun _ _ _ => True) := by
  have hkey := s3Key_eq root.accepted
  have hdir : ∀ place, keyAt root.rootPrefix place ≠ [] := by
    intro place hnil
    have hroot := (append_eq_nil_iff.mp hnil).1
    exact ((assertTenantRootPrefix_eq_ok root.accepted).2.1 [] (by simp [hroot])).1 rfl
  have hnot : ∀ p, ¬isProtectedSftpPath readOnlyDirs p = true → _ :=
    fun p hp => not_publishedKey root.rootPrefix ((isProtectedSftpPath_iff readOnlyDirs p).not.mp hp)
  constructor
  case rename =>
    intro source dest b hsource hdest _
    simp only [s3Backend, hkey, mapError_ok, check_ok, pure_bind]
    exact Keeps.bind (keeps_copy (hnot dest hdest).1)
      (fun _ => keeps_delete (hnot source hsource).1) b
  all_goals
    intro p
    simp only [s3Backend, hkey, mapError_ok, check_ok, pure_bind, if_neg (hdir _)]
  case list =>
    exact Keeps.bind keeps_listObjects fun _ => Keeps.pure _
  case stat =>
    split_ifs
    · exact Keeps.pure _
    · intro b
      have hhead := keeps_head (P := PublishedKey readOnlyDirs root.rootPrefix)
        (k := keyAt root.rootPrefix (cleanSegments p)) b
      rw [outcome_perform]
      split
      · rename_i heq
        rwa [heq] at hhead
      · rename_i b' heq
        rw [heq] at hhead
        have hlist := keeps_listObjects (P := PublishedKey readOnlyDirs root.rootPrefix)
          (k := keyAt root.rootPrefix (cleanSegments p) ++ ['/']) b'
        refine trans_of _ hhead ?_
        split <;> (rename_i heq'; rwa [heq'] at hlist)
  case read =>
    exact keeps_get
  case write =>
    intro data hp
    exact keeps_put (hnot p hp).1 data
  case remove =>
    intro hp
    exact keeps_delete (hnot p hp).1
  case mkdir =>
    intro hp
    exact keeps_put (hnot p hp).2 []
  case rmdir =>
    intro hp
    exact Keeps.bind keeps_listObjects fun _ =>
      Keeps.bind (Keeps.check _) fun _ => keeps_delete (hnot p hp).2

/-! ### A session behind the guard -/

section Session

variable {σ : Type} {backend : SftpBackend σ} {R : σ → σ → Prop} [IsPreorder σ R]
  {config : SessionConfig} {SafeRename : σ → List Char → List Char → Prop}

/-- No file of a published folder is open for writing. -/
def NoPublishedWrite (config : SessionConfig) (t : HandleTable) : Prop :=
  ∀ x ∈ t.files, x.2.write = true → ¬isProtectedSftpPath config.readOnlyDirs x.2.path = true

theorem isProtectedSftpPath_cleanPath (readOnlyDirs : List (List Char)) (p : List Char) :
    isProtectedSftpPath readOnlyDirs (cleanPath p) = isProtectedSftpPath readOnlyDirs p := by
  rw [Bool.eq_iff_iff, isProtectedSftpPath_iff, isProtectedSftpPath_iff, cleanSegments_cleanPath]

theorem keepsOpens_noPublishedWrite (config : SessionConfig) :
    KeepsOpens config (NoPublishedWrite config) where
  newHandle _ h := h
  register := by
    intro filename h f t t' hfile hwrites ht hregister
    simp only [registerFile, bind_eq_ok, pure_eq_ok] at hregister
    obtain ⟨_, -, rfl⟩ := hregister
    intro x hx
    rcases mem_cons.mp hx with rfl | hx
    · intro hwrite
      have hdenied := refuseIf_eq_ok.mp (hwrites hwrite)
      rwa [hfile, isProtectedSftpPath_cleanPath]
    · exact ht x (mem_of_mem_filter hx)

variable {s : Session σ} (hbackend : Protects backend R
  (fun p => isProtectedSftpPath config.readOnlyDirs p = true) SafeRename)

include hbackend in
theorem kept_closeFile (h : ℕ) (hs : NoPublishedWrite config s.table) :
    Kept R (NoPublishedWrite config) s (closeFile backend config h s).2 := by
  unfold closeFile closeHandle
  cases hlookup : s.table.files.lookup h with
  | none => exact ⟨refl_of R _, hs⟩
  | some f =>
    have hclosed : Kept R (NoPublishedWrite config) s { s with
        table := { s.table with
          files := s.table.files.filter (·.1 ≠ h)
          sessionBufferedBytes := s.table.sessionBufferedBytes - f.buf.length } } :=
      ⟨refl_of R _, fun x hx => hs x (mem_of_mem_filter hx)⟩
    dsimp only
    split_ifs with hwrite
    · refine Kept.of_checking hclosed fun _ _ => ?_
      obtain ⟨l₁, l₂, hfiles, -⟩ := List.lookup_eq_some_iff.mp hlookup
      have hpath := hs (h, f) (by simp [hfiles]) hwrite
      exact Kept.of_asking hclosed (hbackend.write _ _ hpath _) fun _ _ hs₁ => hs₁
    · exact hclosed

/-- A write into a file leaves it the file it was. -/
theorem noPublishedWrite_writeHandle {h offset : ℕ} {bytes : Data} {t t' : HandleTable}
    (ht : NoPublishedWrite config t) (hwrite : writeHandle config h offset bytes t = .ok t') :
    NoPublishedWrite config t' := by
  simp only [writeHandle, bind_eq_ok, orRefuse_eq_ok, pure_eq_ok] at hwrite
  obtain ⟨f, hf, _, -, _, -, _, -, rfl⟩ := hwrite
  intro x hx
  rcases mem_cons.mp hx with rfl | hx
  · intro hwritten
    obtain ⟨hlookup, -⟩ := Option.filter_eq_some_iff.mp hf
    obtain ⟨l₁, l₂, hfiles, -⟩ := List.lookup_eq_some_iff.mp hlookup
    exact ht (h, f) (by simp [hfiles]) hwritten
  · exact ht x (mem_of_mem_filter hx)

include hbackend in
/-- **What one request leaves alone.** -/
theorem kept_dispatch (request : Request) (hs : NoPublishedWrite config s.table)
    (hsafe : ∀ source dest, request = .RENAME source dest → SafeRename s.store source dest) :
    Kept R (NoPublishedWrite config) s (dispatch backend config request s).2 := by
  have hstart : Kept R (NoPublishedWrite config) s s := ⟨refl_of R _, hs⟩
  cases request with
  | STAT p => exact kept_doStat (hbackend.stat p) hs
  | FSTAT h =>
    unfold dispatch
    dsimp only
    split <;> exact hstart
  | OPENDIR p =>
    refine Kept.of_checking hstart fun _ _ => ?_
    exact Kept.of_asking hstart (hbackend.list _ _) fun _ _ hs₁ => hs₁
  | READDIR h =>
    refine ⟨refl_of R _, ?_⟩
    simp only [dispatch, readdirHandle]
    split
    · exact hs
    · split_ifs <;> exact hs
  | OPEN filename flags =>
    exact kept_openFile (keepsOpens_noPublishedWrite config) hbackend.stat hbackend.read hs
  | READ h offset length => exact hstart
  | WRITE h offset bytes =>
    exact Kept.of_checking hstart fun table htable =>
      ⟨refl_of R _, noPublishedWrite_writeHandle hs htable⟩
  | CLOSE h => exact kept_closeFile hbackend h hs
  | REMOVE p => exact kept_wrap hs fun hp => hbackend.remove p hp
  | MKDIR p => exact kept_wrap hs fun hp => hbackend.mkdir p hp
  | RMDIR p => exact kept_rmdirPath hs fun hp => hbackend.rmdir p hp
  | RENAME source dest =>
    exact kept_renamePath hs fun hsource hdest =>
      hbackend.rename source dest s.store hsource hdest (hsafe source dest rfl)
  | SETSTAT p | FSETSTAT h => exact Kept.of_checking hstart fun _ _ => hstart

include hbackend in
/-- **What a run leaves alone**, by induction on the requests. -/
theorem kept_runSession (requests : List (Except String Unit × Request))
    (hs : NoPublishedWrite config s.table)
    (hsafe : ∀ before source dest after,
      requests = before ++ (.ok (), .RENAME source dest) :: after →
        SafeRename (runSession backend config before s).store source dest) :
    Kept R (NoPublishedWrite config) s (runSession backend config requests s) := by
  induction requests using reverseRecOn with
  | nil => exact ⟨refl_of R _, hs⟩
  | append_singleton before r ih =>
    obtain ⟨live, request⟩ := r
    have hbefore := ih fun before' source dest after heq =>
      hsafe before' source dest (after ++ [(live, request)]) (by simp [heq])
    have hrun : runSession backend config (before ++ [(live, request)]) s =
        (fenced backend config live request (runSession backend config before s)).2 := by
      simp [runSession]
    rw [hrun]
    cases live with
    | error reason => exact hbefore
    | ok _ =>
      have hstep := kept_dispatch hbackend request hbefore.2 fun source dest heq =>
        hsafe before source dest [] (by rw [heq])
      exact ⟨trans_of R hbefore.1 hstep.1, hstep.2⟩

end Session

/-! ### Whole sessions -/

theorem noPublishedWrite_empty (config : SessionConfig) :
    NoPublishedWrite config empty := by
  intro x hx
  cases hx

theorem local_published_unchanged (rootDir : RootDir) (config : SessionConfig)
    (requests : List (Except String Unit × Request)) (s : Session Disk)
    (hnew : s.table = empty)
    (hrenames : ∀ before source dest after,
      requests = before ++ (.ok (), .RENAME source dest) :: after →
        ¬RenameReaches config.readOnlyDirs rootDir.place
          (runSession (localBackend rootDir.place) config before s).store source dest)
    (hplace : Published config.readOnlyDirs place) :
    (runSession (localBackend rootDir.place) config requests s).store.at? (rootDir.place ++ place) =
      s.store.at? (rootDir.place ++ place) :=
  (kept_runSession (localBackend_protects rootDir config.readOnlyDirs) requests
    (hnew ▸ noPublishedWrite_empty config) hrenames).1 _ (publishedPlace_append.mpr hplace)

theorem s3_published_unchanged (root : TenantRoot) (config : SessionConfig)
    (requests : List (Except String Unit × Request)) (s : Session Bucket)
    (hnew : s.table = empty) {k : List Char}
    (hk : PublishedKey config.readOnlyDirs root.rootPrefix k) :
    (runSession (s3Backend root.rootPrefix root.orgId) config requests s).store.at? k =
      s.store.at? k :=
  (kept_runSession (s3Backend_protects root config.readOnlyDirs) requests
    (hnew ▸ noPublishedWrite_empty config) fun _ _ _ _ _ => trivial).1 k hk

/-- **Published files are immutable** in every session on an object store, and in every session
on disk in which no rename moves a folder from above, or to above, a published one. -/
theorem published_unchanged (config : SessionConfig)
    (requests : List (Except String Unit × Request)) :
    (∀ (rootDir : RootDir) (s : Session Disk), s.table = empty →
      (∀ before source dest after,
        requests = before ++ (.ok (), .RENAME source dest) :: after →
          ¬RenameReaches config.readOnlyDirs rootDir.place
            (runSession (localBackend rootDir.place) config before s).store source dest) →
      ∀ place, Published config.readOnlyDirs place →
        (runSession (localBackend rootDir.place) config requests s).store.at?
            (rootDir.place ++ place) =
          s.store.at? (rootDir.place ++ place)) ∧
    (∀ (root : TenantRoot) (s : Session Bucket), s.table = empty →
      ∀ k, PublishedKey config.readOnlyDirs root.rootPrefix k →
        (runSession (s3Backend root.rootPrefix root.orgId) config requests s).store.at? k =
          s.store.at? k) :=
  ⟨fun rootDir s hnew hrenames _ hplace =>
      local_published_unchanged rootDir config requests s hnew hrenames hplace,
    fun root s hnew _ hk => s3_published_unchanged root config requests s hnew hk⟩

/-- A folder with a published one in it. -/
def sampleDisk : Disk :=
  ⟨[(["data".toList], .dir), (["data".toList, "a".toList], .dir),
    (["data".toList, "a".toList, "outbound".toList], .dir),
    (["data".toList, "a".toList, "outbound".toList, "pay".toList], .file [1])], []⟩

def sampleConfig : SessionConfig := ⟨⟨10, 10, 10⟩, ["/a/outbound".toList]⟩

/-- Renaming the folder above takes the published one away. -/
theorem published_moved_from_above :
    Published sampleConfig.readOnlyDirs ["a".toList, "outbound".toList, "pay".toList] ∧
      sampleDisk.at? (sampleRootDir.place ++ ["a".toList, "outbound".toList, "pay".toList]) =
        some (.file [1]) ∧
      (runSession (localBackend sampleRootDir.place) sampleConfig
        [(.ok (), .RENAME "/a".toList "/b".toList)]
        ⟨empty, sampleDisk⟩).store.at?
          (sampleRootDir.place ++ ["a".toList, "outbound".toList, "pay".toList]) = none := by
  refine ⟨⟨"/a/outbound".toList, by decide, by decide, by decide +kernel⟩, ?_, ?_⟩
  · decide +kernel
  · decide +kernel

/-- A session that renames a file beside the published folder, and one on an object store. -/
theorem published_unchanged_beside :
    (runSession (localBackend sampleRootDir.place) sampleConfig
        [(.ok (), .RENAME "/x".toList "/b".toList)]
        ⟨empty, sampleDisk⟩).store.at?
          (sampleRootDir.place ++ ["a".toList, "outbound".toList, "pay".toList]) =
        sampleDisk.at? (sampleRootDir.place ++ ["a".toList, "outbound".toList, "pay".toList]) ∧
      (runSession (s3Backend "sftp/org".toList "org".toList) sampleConfig
        [(.ok (), .RENAME "/a".toList "/b".toList)]
        ⟨empty, ⟨[("sftp/org/a/outbound/pay".toList, [1])], []⟩⟩).store.at?
          "sftp/org/a/outbound/pay".toList = some [1] := by
  refine ⟨(published_unchanged sampleConfig _).1 sampleRootDir ⟨empty, sampleDisk⟩ rfl
      ?_ _ ⟨"/a/outbound".toList, by decide, by decide, by decide +kernel⟩,
    ((published_unchanged sampleConfig _).2 ⟨"sftp/org".toList, "org".toList, by decide +kernel⟩
      ⟨empty, ⟨[("sftp/org/a/outbound/pay".toList, [1])], []⟩⟩ rfl _
      ⟨"/a/outbound".toList, by decide, by decide, Or.inr (by decide +kernel)⟩).trans ?_⟩
  · intro before source dest after heq
    cases before with
    | cons r before => simp at heq
    | nil =>
      obtain ⟨⟨rfl, rfl⟩, -⟩ : (source = "/x".toList ∧ dest = "/b".toList) ∧ after = [] := by
        simpa using heq.symm
      rintro ⟨-, -, rest, hthere, -⟩
      have hplace : cleanSegments ['/', 'x'] = [['x']] := by decide +kernel
      simp [runSession, sampleRootDir, sampleDisk, Disk.at?, hplace] at hthere
  · decide +kernel

end OpenBooks
