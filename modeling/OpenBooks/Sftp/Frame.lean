import OpenBooks.Sftp.Session

/-!
# What a handler leaves alone

A handler is a row of checks with calls to storage between them. If each of its calls keeps
storage within some relation, so does the handler, wherever it stops
(`Kept.of_checking`, `Kept.of_asking`); and an invariant of the table of
handles goes along. The handlers that name a path are done here, once, for any such relation
and invariant.
-/

namespace OpenBooks

open Checked Effect

variable {σ : Type} {backend : SftpBackend σ} {R : σ → σ → Prop} {config : SessionConfig}
  {T : HandleTable → Prop}

/-- What a request leaves: a store that moved within a relation, and a good table. -/
def Kept (R : σ → σ → Prop) (T : HandleTable → Prop) (s s' : Session σ) : Prop :=
  R s.store s'.store ∧ T s'.table

variable {s : Session σ}

theorem Kept.of_checking {α : Type} {x : Except Reply α} {s₀ : Session σ}
    {next : α → Reply × Session σ} (hrefused : Kept R T s₀ s)
    (hnext : ∀ a, x = .ok a → Kept R T s₀ (next a).2) : Kept R T s₀ (checking x s next).2 := by
  cases x with
  | ok a => exact hnext a rfl
  | error refusal => exact hrefused

/-- An invariant of the table that opening a file keeps. A file is entered under its clean path,
and one to be written to was checked for being published. -/
structure KeepsOpens (config : SessionConfig) (T : HandleTable → Prop) : Prop where
  newHandle : ∀ t, T t → T t.newHandle.2
  register : ∀ (filename : List Char) (h : ℕ) (f : OpenFile) (t t' : HandleTable),
    f.path = cleanPath filename → (f.write = true → denyPublished config filename = .ok ()) →
      T t → registerFile config h f t = .ok t' → T t'

theorem Kept.registering (hT : KeepsOpens config T) {s s₀ : Session σ} {filename : List Char}
    {h : ℕ} {f : OpenFile} (hs : Kept R T s₀ s) (hpath : f.path = cleanPath filename)
    (hwrite : f.write = true → denyPublished config filename = .ok ()) :
    Kept R T s₀ (registering config h f s).2 :=
  Kept.of_checking hs fun table htable =>
    ⟨hs.1, hT.register filename h f s.table table hpath hwrite hs.2 htable⟩

variable [IsPreorder σ R]

theorem Kept.of_asking {α : Type} {op : Effect σ StorageError α} {what : String} {s₀ : Session σ}
    {next : α → Session σ → Reply × Session σ} (hs : Kept R T s₀ s)
    (hop : R s.store (op.outcome s.store).2)
    (hnext : ∀ a s', Kept R T s₀ s' → Kept R T s₀ (next a s').2) :
    Kept R T s₀ (asking op what s next).2 := by
  unfold asking
  split
  · rename_i heq
    rw [heq] at hop
    exact hnext _ _ ⟨trans_of R hs.1 hop, hs.2⟩
  · rename_i heq
    rw [heq] at hop
    exact ⟨trans_of R hs.1 hop, hs.2⟩

variable {p : List Char}

theorem kept_doStat (hstat : Keeps R (backend.stat p)) (hs : T s.table) :
    Kept R T s (doStat backend p s).2 := by
  have hstart : Kept R T s s := ⟨refl_of R _, hs⟩
  refine Kept.of_checking hstart fun _ _ => ?_
  refine Kept.of_asking hstart (hstat _) fun st s₁ hs₁ => ?_
  cases st <;> exact hs₁

theorem kept_openFile (hT : KeepsOpens config T) (hstat : ∀ p, Keeps R (backend.stat p))
    (hread : ∀ p, Keeps R (backend.read p)) {filename : List Char} {flags : ℕ} (hs : T s.table) :
    Kept R T s (openFile backend config filename flags s).2 := by
  refine Kept.of_checking ⟨refl_of R _, hs⟩ fun ⟨h, table⟩ hadmit => ?_
  simp only [admitOpen, bind_eq_ok, onlyIf_eq_ok, pure_eq_ok] at hadmit
  obtain ⟨_, -, _, -, _, hdeny, hnew⟩ := hadmit
  cases hnew
  have hstart : Kept R T s { s with table := s.table.newHandle.2 } :=
    ⟨refl_of R _, hT.newHandle _ hs⟩
  dsimp only
  split_ifs with hflags htrunc
  · exact Kept.registering hT hstart rfl fun _ => hdeny (Or.inl hflags)
  · refine Kept.of_asking hstart (hstat _ _) fun st s₁ hs₁ => ?_
    refine Kept.of_checking hs₁ fun reads _ => ?_
    split_ifs
    · exact Kept.of_asking hs₁ (hread _ _) fun buf s₂ hs₂ =>
        Kept.registering hT hs₂ rfl fun _ => hdeny (Or.inl hflags)
    · exact Kept.registering hT hs₁ rfl fun _ => hdeny (Or.inl hflags)
  · refine Kept.of_asking hstart (hstat _ _) fun st s₁ hs₁ => ?_
    refine Kept.of_checking hs₁ fun _ _ => ?_
    refine Kept.of_asking hs₁ (hread _ _) fun buf s₂ hs₂ => ?_
    refine Kept.of_checking hs₂ fun _ _ => ?_
    exact Kept.registering hT hs₂ (rfl : _ = cleanPath filename) (by simp [readingFile])

theorem kept_wrap {what : String} {op : List Char → Effect σ StorageError Unit} (hs : T s.table)
    (hop : ¬isProtectedSftpPath config.readOnlyDirs p = true → Keeps R (op p)) :
    Kept R T s (wrap config what op p s).2 := by
  have hstart : Kept R T s s := ⟨refl_of R _, hs⟩
  refine Kept.of_checking hstart fun _ _ => Kept.of_checking hstart fun _ hdeny => ?_
  exact Kept.of_asking hstart (hop (refuseIf_eq_ok.mp hdeny) _) fun _ _ hs₁ => hs₁

theorem kept_rmdirPath (hs : T s.table)
    (hop : ¬isProtectedSftpPath config.readOnlyDirs p = true → Keeps R (backend.rmdir p)) :
    Kept R T s (rmdirPath backend config p s).2 := by
  have hstart : Kept R T s s := ⟨refl_of R _, hs⟩
  refine Kept.of_checking hstart fun _ _ => Kept.of_checking hstart fun _ hdeny => ?_
  have hstore := hop (refuseIf_eq_ok.mp hdeny) s.store
  split <;> (rename_i heq; rw [heq] at hstore; exact ⟨hstore, hs⟩)

theorem kept_renamePath {source dest : List Char} (hs : T s.table)
    (hop : ¬isProtectedSftpPath config.readOnlyDirs source = true →
      ¬isProtectedSftpPath config.readOnlyDirs dest = true →
        R s.store ((backend.rename source dest).outcome s.store).2) :
    Kept R T s (renamePath backend config source dest s).2 := by
  have hstart : Kept R T s s := ⟨refl_of R _, hs⟩
  refine Kept.of_checking hstart fun _ _ => Kept.of_checking hstart fun _ _ => ?_
  refine Kept.of_checking hstart fun _ hsource => Kept.of_checking hstart fun _ hdest => ?_
  have hstore := hop (refuseIf_eq_ok.mp hsource) (refuseIf_eq_ok.mp hdest)
  exact Kept.of_asking hstart hstore fun _ _ hs₁ => hs₁

end OpenBooks
