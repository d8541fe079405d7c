import OpenBooks.Lib.Runs
import Mathlib.Data.List.Basic

/-!
# Transactions with row locks and a unique key

A store keeps rows, and appends entries. An entry belongs to a row and is under a key, and a key is
there once. Programs run on it as transactions, many at a time, and the statements of different
programs interleave. A program reads what is committed when it reads, and what it wrote itself
(*read committed*). It locks a row before it updates it, and holds the lock to its end. An entry is
inserted *on conflict do nothing*: a program that inserts under a key that another has inserted and
not yet committed waits, and is then told which entry is there.

What a program has to keep is said of the rows it holds (`Transactions.Program.wp`): it may take a
row to be in order when it gets hold of it, and has to leave it in order when it commits. So a
program that is right by itself is right whatever runs beside it: `Transactions.InOrder.step`.
-/

namespace Transactions

/-- Entries that are of a row and under a key. -/
class Entry (η : Type) (κ : outParam Type) where
  row : η → ℕ
  key : η → κ

/-! ### Programs -/

/-- A program, statement by statement. -/
inductive Program (ρ η κ ε α : Type) where
  | result (outcome : Except ε α)
  /-- The entry under a key. -/
  | readEntry (key : κ) (next : Option η → Program ρ η κ ε α)
  /-- The entries that meet a condition. -/
  | readEntries (which : η → Bool) (next : List η → Program ρ η κ ε α)
  /-- The rows that meet a condition, without a lock. -/
  | readRows (which : ρ → Bool) (next : List ℕ → Program ρ η κ ε α)
  /-- A row, locked. -/
  | lockRow (row : ℕ) (next : Option ρ → Program ρ η κ ε α)
  | insertRow (value : ρ) (next : ℕ → Program ρ η κ ε α)
  /-- An update where a condition holds: whether a row was updated. -/
  | updateRow (row : ℕ) (guard : ρ → Bool) (write : ρ → ρ) (next : Bool → Program ρ η κ ε α)
  /-- An insertion on conflict do nothing: the entry that is there under the key already. -/
  | insertEntry (entry : η) (next : Option η → Program ρ η κ ε α)

namespace Program

variable {ρ η κ ε α β : Type}

/-- One program after another. -/
def andThen : Program ρ η κ ε α → (α → Program ρ η κ ε β) → Program ρ η κ ε β
  | .result (.ok a), f => f a
  | .result (.error e), _ => .result (.error e)
  | .readEntry key next, f => .readEntry key fun found => (next found).andThen f
  | .readEntries which next, f => .readEntries which fun found => (next found).andThen f
  | .readRows which next, f => .readRows which fun found => (next found).andThen f
  | .lockRow row next, f => .lockRow row fun found => (next found).andThen f
  | .insertRow value next, f => .insertRow value fun row => (next row).andThen f
  | .updateRow row guard write next, f =>
    .updateRow row guard write fun updated => (next updated).andThen f
  | .insertEntry entry next, f => .insertEntry entry fun existing => (next existing).andThen f

instance : Monad (Program ρ η κ ε) where
  pure a := .result (.ok a)
  bind := andThen

/-- Something that was checked, or computed. -/
def check (x : Except ε α) : Program ρ η κ ε α := .result x

def select (key : κ) : Program ρ η κ ε (Option η) := .readEntry key fun found => pure found

def selectWhere (which : η → Bool) : Program ρ η κ ε (List η) :=
  .readEntries which fun found => pure found

def selectRows (which : ρ → Bool) : Program ρ η κ ε (List ℕ) :=
  .readRows which fun found => pure found

def selectForUpdate (row : ℕ) : Program ρ η κ ε (Option ρ) := .lockRow row fun found => pure found

def insert (value : ρ) : Program ρ η κ ε ℕ := .insertRow value fun row => pure row

def updateWhere (row : ℕ) (guard : ρ → Bool) (write : ρ → ρ) : Program ρ η κ ε Bool :=
  .updateRow row guard write fun updated => pure updated

def append (entry : η) : Program ρ η κ ε (Option η) :=
  .insertEntry entry fun existing => pure existing

end Program

/-! ### Running them -/

structure Store (ρ η : Type) where
  rows : ℕ → Option ρ
  /-- In the order in which they were committed. -/
  entries : List η

/-- A transaction under way: what is left of it, the rows it holds, and what it wrote. -/
structure Session (ρ η κ ε : Type) where
  program : Program ρ η κ ε Unit
  held : List ℕ
  rows : ℕ → Option ρ
  entries : List η

structure System (ρ η κ ε : Type) where
  store : Store ρ η
  nextRow : ℕ
  /-- A session that has ended is none. -/
  sessions : List (Option (Session ρ η κ ε))

variable {ρ η κ ε α β op : Type}

def System.session (s : System ρ η κ ε) (i : ℕ) : Option (Session ρ η κ ε) := (s.sessions[i]?).join

/-- The sessions beside one. -/
def System.others (s : System ρ η κ ε) (i : ℕ) : List (Session ρ η κ ε) :=
  (s.sessions.set i none).reduceOption

def System.set (s : System ρ η κ ε) (i : ℕ) (x : Option (Session ρ η κ ε)) : System ρ η κ ε :=
  { s with sessions := s.sessions.set i x }

/-- A row as a session sees it. -/
def Store.rowFor (store : Store ρ η) (x : Session ρ η κ ε) (row : ℕ) : Option ρ :=
  (x.rows row).or (store.rows row)

/-- The entries as a session sees them. -/
def Store.entriesFor (store : Store ρ η) (x : Session ρ η κ ε) : List η :=
  store.entries ++ x.entries

/-- What a session wrote, for all to see. -/
def Store.commit (store : Store ρ η) (x : Session ρ η κ ε) : Store ρ η where
  rows := store.rowFor x
  entries := store.entriesFor x

inductive Event (op : Type)
  /-- An operation is called. -/
  | start (operation : op)
  /-- A session makes its next statement, or ends. -/
  | run (i : ℕ)
  /-- A session is broken off. -/
  | abort (i : ℕ)

inductive Refused
  | noSession
  /-- What the statement needs is held by another. -/
  | waits
  deriving DecidableEq

section Step

variable [Entry η κ] [DecidableEq κ]

/-- The entry that a session finds under a key. -/
def Store.find (store : Store ρ η) (x : Session ρ η κ ε) (key : κ) : Option η :=
  (store.entriesFor x).find? fun e => Entry.key e = key

/-- The next statement of a session. -/
def System.advance (s : System ρ η κ ε) (i : ℕ) (x : Session ρ η κ ε) :
    Except Refused (System ρ η κ ε) :=
  match x.program with
  | .result (.ok _) => .ok { s.set i none with store := s.store.commit x }
  | .result (.error _) => .ok (s.set i none)
  | .readEntry key next => .ok (s.set i (some { x with program := next (s.store.find x key) }))
  | .readEntries which next =>
    .ok (s.set i (some { x with program := next ((s.store.entriesFor x).filter which) }))
  | .readRows which next =>
    .ok (s.set i (some { x with program := next ((List.range s.nextRow).filter fun row =>
      (s.store.rowFor x row).any which) }))
  | .lockRow row next =>
    match s.store.rowFor x row with
    | none => .ok (s.set i (some { x with program := next none }))
    | some value =>
      if (s.others i).any (row ∈ ·.held) then .error .waits
      else .ok (s.set i (some { x with program := next (some value), held := row :: x.held }))
  | .insertRow value next =>
    .ok { s.set i (some { x with
        program := next s.nextRow
        held := s.nextRow :: x.held
        rows := fun row => if row = s.nextRow then some value else x.rows row }) with
      nextRow := s.nextRow + 1 }
  | .updateRow row guard write next =>
    match s.store.rowFor x row with
    | none => .ok (s.set i (some { x with program := next false }))
    | some value =>
      if (s.others i).any (row ∈ ·.held) then .error .waits
      else if guard value then
        .ok (s.set i (some { x with
          program := next true
          held := row :: x.held
          rows := fun r => if r = row then some (write value) else x.rows r }))
      else .ok (s.set i (some { x with program := next false }))
  | .insertEntry entry next =>
    if (s.others i).any (fun y => y.entries.any fun e => Entry.key e = Entry.key entry) then
      .error .waits
    else match s.store.find x (Entry.key entry) with
      | some existing => .ok (s.set i (some { x with program := next (some existing) }))
      | none =>
        .ok (s.set i (some { x with program := next none, entries := x.entries ++ [entry] }))

/-- One step of the system: an operation is called, or a session goes on or is broken off. -/
def System.step (program : op → Program ρ η κ ε Unit) (s : System ρ η κ ε) :
    Event op → Except Refused (System ρ η κ ε)
  | .start operation =>
    .ok { s with sessions := s.sessions ++ [some ⟨program operation, [], fun _ => none, []⟩] }
  | .run i => (s.session i).elim (.error .noSession) fun x => s.advance i x
  | .abort i => .ok (s.set i none)

end Step

/-- A store that nothing was written to. -/
def System.empty : System ρ η κ ε where
  store := ⟨fun _ => none, []⟩
  nextRow := 0
  sessions := []

/-! ### What a program has to keep -/

/-- What is in order: a row with its entries, an entry by itself, and what may become of a row.
`Sure` entries are those that a program inserts without asking whether they were there: runs are
considered in which they never were. -/
structure Spec (ρ η : Type) where
  Consistent : ℕ → ρ → List η → Prop
  Formed : η → Prop
  Allowed : ρ → ρ → Prop
  allowed_refl : ∀ r, Allowed r r
  Sure : η → Bool

/-- A row that is held: what was committed of it, what it is now, and its entries. -/
structure Holding (ρ η : Type) where
  committed : Option ρ
  row : ρ
  entries : List η

/-- The rows that a session holds. -/
abbrev Holdings (ρ η : Type) := ℕ → Option (Holding ρ η)

def Holdings.put (v : Holdings ρ η) (row : ℕ) (h : Holding ρ η) : Holdings ρ η :=
  Function.update v row (some h)

variable (v : Holdings ρ η)

@[simp] theorem Holdings.put_self (row : ℕ) (h : Holding ρ η) : v.put row h row = some h := by
  simp [put]

variable {row : ℕ}

theorem Holdings.put_of_ne {r : ℕ} (hne : r ≠ row) (h : Holding ρ η) : v.put row h r = v r := by
  simp [put, hne]

@[simp] theorem Holdings.put_put (row : ℕ) (h h' : Holding ρ η) :
    (v.put row h).put row h' = v.put row h' := by
  simp [put]

variable (spec : Spec ρ η)

/-- All that is held is in order, and may be committed. -/
def Spec.Settled (v : Holdings ρ η) : Prop :=
  ∀ row h, v row = some h → spec.Consistent row h.row h.entries ∧
    ∀ r ∈ h.committed, spec.Allowed r h.row

section Wp

variable [Entry η κ]

/-- **The rules of programs**: what has to hold of the rows held, so that a program that ends
leaves `Q`. Reads say nothing, as others write beside it. A row that is locked is in order, and
nobody else touches it from then on. An entry that is found under a key is well formed; and if it
is of a row that is held, it is among the entries of the row. -/
def Program.wp : Program ρ η κ ε α → Holdings ρ η → (Holdings ρ η → α → Prop) → Prop
  | .result (.ok a), v, Q => Q v a
  | .result (.error _), _, _ => True
  | .readEntry _ next, v, Q => ∀ found, (next found).wp v Q
  | .readEntries _ next, v, Q => ∀ found, (next found).wp v Q
  | .readRows _ next, v, Q => ∀ found, (next found).wp v Q
  | .lockRow row next, v, Q =>
    (∀ h, v row = some h → (next (some h.row)).wp v Q) ∧
      (v row = none → (next none).wp v Q ∧ ∀ value entries,
        spec.Consistent row value entries →
        (next (some value)).wp (v.put row ⟨some value, value, entries⟩) Q)
  | .insertRow value next, v, Q =>
    ∀ row, v row = none → (next row).wp (v.put row ⟨none, value, []⟩) Q
  | .updateRow row guard write next, v, Q => ∃ h, v row = some h ∧
    (guard h.row = true → (next true).wp (v.put row { h with row := write h.row }) Q) ∧
    (guard h.row = false → (next false).wp v Q)
  | .insertEntry entry next, v, Q => spec.Formed entry ∧ ∃ h, v (Entry.row entry) = some h ∧
    (next none).wp (v.put (Entry.row entry) { h with entries := h.entries ++ [entry] }) Q ∧
    ∀ other, Entry.key other = Entry.key entry → spec.Formed other →
      (∀ h, v (Entry.row other) = some h → other ∈ h.entries) → spec.Sure entry = false →
        (next (some other)).wp v Q

variable {spec} {v : Holdings ρ η} {Q Q' : Holdings ρ η → α → Prop} {R : Holdings ρ η → β → Prop}

/-- **The rule of sequence.** -/
theorem Program.wp_andThen (p : Program ρ η κ ε α) (f : α → Program ρ η κ ε β) :
    (p.andThen f).wp spec v R ↔ p.wp spec v fun v a => (f a).wp spec v R := by
  induction p generalizing v with
  | result outcome =>
    cases outcome with
    | error e | ok a => exact Iff.rfl
  | readEntry key next ih | readEntries which next ih | readRows which next ih =>
    exact forall_congr' fun found => ih found
  | lockRow row next ih =>
    exact and_congr (forall_congr' fun x => imp_congr_right fun _ => ih _)
      (imp_congr_right fun _ => and_congr (ih _)
        (forall_congr' fun value => forall_congr' fun entries => imp_congr_right fun _ => ih _))
  | insertRow value next ih => exact forall_congr' fun row => imp_congr_right fun _ => ih row
  | updateRow row guard write next ih =>
    exact exists_congr fun x => and_congr_right fun _ =>
      and_congr (imp_congr_right fun _ => ih _) (imp_congr_right fun _ => ih _)
  | insertEntry entry next ih =>
    exact and_congr_right fun _ => exists_congr fun x => and_congr_right fun _ =>
      and_congr (ih _) (forall_congr' fun other => imp_congr_right fun _ =>
        imp_congr_right fun _ => imp_congr_right fun _ => imp_congr_right fun _ => ih _)

variable {p : Program ρ η κ ε α} {f : α → Program ρ η κ ε β}

theorem Program.wp_bind : (p >>= f).wp spec v R ↔ p.wp spec v fun v a => (f a).wp spec v R :=
  wp_andThen p f

/-- **The rule of consequence.** -/
theorem Program.wp_mono (p : Program ρ η κ ε α) (hQ : ∀ v a, Q v a → Q' v a)
    (h : p.wp spec v Q) : p.wp spec v Q' := by
  induction p generalizing v with
  | result outcome =>
    cases outcome with
    | error e => trivial
    | ok a => exact hQ v a h
  | readEntry key next ih | readEntries which next ih | readRows which next ih =>
    exact fun found => ih found (h found)
  | lockRow row next ih =>
    exact ⟨fun x hx => ih _ (h.1 x hx), fun hnone => ⟨ih _ (h.2 hnone).1,
      fun value entries hvalue => ih _ ((h.2 hnone).2 value entries hvalue)⟩⟩
  | insertRow value next ih => exact fun row hrow => ih row (h row hrow)
  | updateRow row guard write next ih =>
    obtain ⟨x, hx, htrue, hfalse⟩ := h
    exact ⟨x, hx, fun hg => ih _ (htrue hg), fun hg => ih _ (hfalse hg)⟩
  | insertEntry entry next ih =>
    obtain ⟨hformed, x, hx, hnew, hother⟩ := h
    exact ⟨hformed, x, hx, ih _ hnew,
      fun other hkey hof hheld hsure => ih _ (hother other hkey hof hheld hsure)⟩

/-- A program that, from rows in order, ends with rows in order. -/
def Program.Keeps (spec : Spec ρ η) (p : Program ρ η κ ε α) : Prop :=
  ∀ v, spec.Settled v → p.wp spec v fun v _ => spec.Settled v

theorem Program.Keeps.bind (hp : p.Keeps spec) (hf : ∀ a, (f a).Keeps spec) :
    (p >>= f).Keeps spec :=
  fun v hv => wp_bind.mpr (wp_mono p (fun v' a hv' => hf a v' hv') (hp v hv))

theorem Program.Keeps.pure (a : α) : (Pure.pure a : Program ρ η κ ε α).Keeps spec :=
  fun _ hv => hv

/-! ### The rules of statements -/

@[simp] theorem Program.wp_pure {a : α} :
    (Pure.pure a : Program ρ η κ ε α).wp spec v Q ↔ Q v a := Iff.rfl

@[simp] theorem Program.wp_check {x : Except ε α} :
    (check x : Program ρ η κ ε α).wp spec v Q ↔ ∀ a, x = .ok a → Q v a := by
  cases x with
  | error e => exact iff_of_true trivial fun a h => nomatch h
  | ok a => exact ⟨fun h b hb => Except.ok.inj hb ▸ h, fun h => h a rfl⟩

@[simp] theorem Program.wp_select {key : κ} {Q : Holdings ρ η → Option η → Prop} :
    (select key : Program ρ η κ ε (Option η)).wp spec v Q ↔ ∀ found, Q v found := Iff.rfl

@[simp] theorem Program.wp_selectWhere {which : η → Bool} {Q : Holdings ρ η → List η → Prop} :
    (selectWhere which : Program ρ η κ ε (List η)).wp spec v Q ↔ ∀ found, Q v found := Iff.rfl

/-- A row that is locked is held, and in order if all that is held was. -/
theorem Program.wp_selectForUpdate {Q : Holdings ρ η → Option ρ → Prop} (hv : spec.Settled v)
    (hnone : Q v none) (hsome : ∀ v' h, spec.Settled v' → v' row = some h → Q v' (some h.row)) :
    (selectForUpdate row : Program ρ η κ ε (Option ρ)).wp spec v Q := by
  refine ⟨fun h hh => hsome v h hv hh, fun _ => ⟨hnone, fun value entries hvalue => ?_⟩⟩
  refine hsome _ _ ?_ (v.put_self row ⟨some value, value, entries⟩)
  intro r h hr
  by_cases heq : r = row
  · subst heq
    rw [Holdings.put_self] at hr
    obtain rfl := Option.some.inj hr
    exact ⟨hvalue, fun c hc => Option.mem_some.mp hc ▸ spec.allowed_refl _⟩
  · rw [Holdings.put_of_ne v heq] at hr
    exact hv r h hr

/-- Rows in order stay so when one of them is put in order. -/
theorem Spec.Settled.put (hv : spec.Settled v) {h : Holding ρ η}
    (hconsistent : spec.Consistent row h.row h.entries)
    (hallowed : ∀ r ∈ h.committed, spec.Allowed r h.row) : spec.Settled (v.put row h) := by
  intro r h' hr
  by_cases heq : r = row
  · subst heq
    rw [Holdings.put_self] at hr
    obtain rfl := Option.some.inj hr
    exact ⟨hconsistent, hallowed⟩
  · rw [Holdings.put_of_ne v heq] at hr
    exact hv r h' hr

/-! ### The rules of loops -/

theorem Program.Keeps.forM {f : α → Program ρ η κ ε Unit} {xs : List α}
    (h : ∀ x ∈ xs, (f x).Keeps spec) : (xs.forM f).Keeps spec := by
  induction xs with
  | nil => exact .pure ()
  | cons x xs ih =>
    exact (h x List.mem_cons_self).bind fun _ => ih fun y hy => h y (List.mem_cons_of_mem x hy)

/-- A loop that moves no row. -/
theorem Program.wp_foldlM {I : β → Prop} {f : β → α → Program ρ η κ ε β}
    (hstep : ∀ b x, I b → (f b x).wp spec v fun v' b' => v' = v ∧ I b') (xs : List α) {b : β}
    (hb : I b) : (xs.foldlM f b).wp spec v fun v' b' => v' = v ∧ I b' := by
  induction xs generalizing b with
  | nil => exact ⟨rfl, hb⟩
  | cons x xs ih =>
    rw [List.foldlM_cons, wp_bind]
    refine wp_mono _ ?_ (hstep b x hb)
    rintro v' b' ⟨rfl, hb'⟩
    exact ih hb'

end Wp

end Transactions
