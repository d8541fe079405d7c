import OpenBooks.Lib.Transactions
import Mathlib.Data.List.ReduceOption
import Mathlib.Order.Lattice

/-!
# Programs that are right whatever runs beside them

The invariant of a system of transactions. What is committed is in order, and every session under
way is sound: what is left of its program keeps its rules on the rows that the session holds.
Sessions hold different rows and insert under different keys, so a step of one leaves the others
sound, and the invariant is kept by every step in which no sure entry is forestalled
(`Transactions.InOrder.step`). What is committed of a row changes only as the specification
allows (`Transactions.InOrder.allowed`).
-/

namespace Transactions

open List Option

variable {ρ η κ ε op : Type}

/-! ### Sessions -/

variable {s : System ρ η κ ε} {i j : ℕ} {x y : Session ρ η κ ε}
  {o : Option (Session ρ η κ ε)}

theorem session_set_of_ne (h : j ≠ i) : (s.set i o).session j = s.session j := by
  rw [System.session, System.session, System.set, getElem?_set_ne h.symm]

theorem session_set_self (h : s.session i = some x) : (s.set i o).session i = o := by
  have hlt : i < s.sessions.length := by
    by_contra hge
    rw [System.session, getElem?_eq_none (not_lt.mp hge)] at h
    cases h
  rw [System.session, System.set, getElem?_set_self hlt]
  rfl

theorem session_set_none : (s.set i none).session i = none := by
  cases hx : s.session i with
  | some x => exact session_set_self hx
  | none =>
    by_cases hlt : i < s.sessions.length
    · rw [System.session, System.set, getElem?_set_self hlt]
      rfl
    · rw [System.session, System.set, getElem?_eq_none (by simpa using hlt)]
      rfl

theorem mem_others (h : j ≠ i) (hy : s.session j = some y) : y ∈ s.others i := by
  rw [System.session, join_eq_some_iff] at hy
  rw [System.others, reduceOption_mem_iff]
  refine mem_of_getElem? (i := j) ?_
  rw [getElem?_set_ne h.symm]
  exact hy

variable {row : ℕ}

theorem not_held_of_others (h : (s.others i).any (row ∈ ·.held) = false) (hj : j ≠ i)
    (hy : s.session j = some y) : row ∉ y.held := by
  have hfalse := any_eq_false.mp h y (mem_others hj hy)
  simpa using hfalse

variable [Entry η κ] {spec : Spec ρ η}

/-- The entries of a row. -/
def entriesOf (entries : List η) (row : ℕ) : List η := entries.filter fun e => Entry.row e = row

/-- The rows that a session holds, as it sees them. -/
def Store.holdings (store : Store ρ η) (x : Session ρ η κ ε) : Holdings ρ η := fun row =>
  if row ∈ x.held then
    (store.rowFor x row).map fun value =>
      ⟨store.rows row, value, entriesOf (store.entriesFor x) row⟩
  else none

/-! ### The invariant -/

/-- A session that is sound on a store. -/
structure Sound (spec : Spec ρ η) (store : Store ρ η) (nextRow : ℕ)
    (x : Session ρ η κ ε) : Prop where
  held_lt : ∀ row ∈ x.held, row < nextRow
  held_row : ∀ row ∈ x.held, ∃ value, store.rowFor x row = some value
  own_rows : ∀ row value, x.rows row = some value → row ∈ x.held
  own_entries : ∀ e ∈ x.entries, Entry.row e ∈ x.held ∧ spec.Formed e
  fresh : ∀ e ∈ x.entries, ∀ e' ∈ store.entries, Entry.key e ≠ Entry.key e'
  distinct : (x.entries.map Entry.key).Nodup
  safe : x.program.wp spec (store.holdings x) fun v _ => spec.Settled v

/-- Sessions that hold different rows and insert under different keys. -/
structure Apart (x y : Session ρ η κ ε) : Prop where
  rows : ∀ row ∈ x.held, row ∉ y.held
  keys : ∀ e ∈ x.entries, ∀ e' ∈ y.entries, Entry.key e ≠ Entry.key e'

theorem Apart.symm {x y : Session ρ η κ ε} (h : Apart x y) : Apart y x :=
  ⟨fun row hy hx => h.rows row hx hy, fun e he e' he' heq => h.keys e' he' e he heq.symm⟩

/-- A system in order. -/
structure InOrder (spec : Spec ρ η) (s : System ρ η κ ε) : Prop where
  keys : (s.store.entries.map Entry.key).Nodup
  bound : ∀ row value, s.store.rows row = some value → row < s.nextRow
  formed : ∀ e ∈ s.store.entries, spec.Formed e
  has_row : ∀ e ∈ s.store.entries, ∃ value, s.store.rows (Entry.row e) = some value
  consistent : ∀ row value, s.store.rows row = some value →
    spec.Consistent row value (entriesOf s.store.entries row)
  sound : ∀ i x, s.session i = some x → Sound spec s.store s.nextRow x
  apart : ∀ i j x y, i ≠ j → s.session i = some x → s.session j = some y → Apart x y

/-! ### What a session sees -/

variable {entries : List η}

theorem mem_entriesOf {e : η} : e ∈ entriesOf entries row ↔ e ∈ entries ∧ Entry.row e = row := by
  rw [entriesOf, mem_filter, decide_eq_true_eq]

theorem entriesOf_append (entries later : List η) (row : ℕ) :
    entriesOf (entries ++ later) row = entriesOf entries row ++ entriesOf later row :=
  filter_append ..

theorem entriesOf_eq_nil (h : ∀ e ∈ entries, Entry.row e ≠ row) : entriesOf entries row = [] := by
  rw [entriesOf, filter_eq_nil_iff]
  exact fun e he heq => h e he (of_decide_eq_true heq)

variable {store : Store ρ η} {value : ρ}

theorem holdings_of_mem (h : row ∈ x.held) (hvalue : store.rowFor x row = some value) :
    store.holdings x row =
      some ⟨store.rows row, value, entriesOf (store.entriesFor x) row⟩ := by
  rw [Store.holdings, if_pos h, hvalue]
  rfl

theorem holdings_eq_some {h : Holding ρ η} (hv : store.holdings x row = some h) :
    row ∈ x.held ∧ store.rowFor x row = some h.row ∧
      h.committed = store.rows row ∧ h.entries = entriesOf (store.entriesFor x) row := by
  rw [Store.holdings] at hv
  split_ifs at hv with hmem
  rw [map_eq_some_iff] at hv
  obtain ⟨value, hvalue, rfl⟩ := hv
  exact ⟨hmem, hvalue, rfl, rfl⟩

variable {nextRow : ℕ}

section

variable (h : Sound spec store nextRow x)

include h

theorem Sound.holdings_eq_none : store.holdings x row = none ↔ row ∉ x.held := by
  constructor
  · intro hnone hmem
    obtain ⟨value, hvalue⟩ := h.held_row row hmem
    rw [holdings_of_mem hmem hvalue] at hnone
    cases hnone
  · intro hmem
    rw [Store.holdings, if_neg hmem]

theorem Sound.rows_of_not_held (hrow : row ∉ x.held) : x.rows row = none := by
  cases hx : x.rows row with
  | none => rfl
  | some value => exact absurd (h.own_rows row value hx) hrow

theorem Sound.rowFor_of_not_held (hrow : row ∉ x.held) : store.rowFor x row = store.rows row := by
  rw [Store.rowFor, h.rows_of_not_held hrow, none_or]

theorem Sound.entriesOf_of_not_held (hrow : row ∉ x.held) :
    entriesOf (store.entriesFor x) row = entriesOf store.entries row := by
  have hown : entriesOf x.entries row = [] :=
    entriesOf_eq_nil fun e he heq => hrow (heq ▸ (h.own_entries e he).1)
  rw [Store.entriesFor, entriesOf_append, hown, append_nil]

end

/-! ### One session goes on -/

variable {store : Store ρ η} {nextRow row : ℕ} {p : Program ρ η κ ε Unit}

/-- A statement that writes nothing. -/
theorem Sound.goOn (h : Sound spec store nextRow x)
    (hsafe : p.wp spec (store.holdings x) fun v _ => spec.Settled v) :
    Sound spec store nextRow { x with program := p } :=
  ⟨h.held_lt, h.held_row, h.own_rows, h.own_entries, h.fresh, h.distinct, hsafe⟩

theorem InOrder.entriesFor_eq_nil (h : InOrder spec s)
    (hx : Sound spec s.store s.nextRow x) :
    entriesOf (s.store.entriesFor x) s.nextRow = [] := by
  refine entriesOf_eq_nil fun e he heq => ?_
  rcases mem_append.mp he with he | he
  · obtain ⟨value, hvalue⟩ := h.has_row e he
    exact absurd (h.bound _ value hvalue) (heq ▸ lt_irrefl _)
  · exact absurd (hx.held_lt _ (hx.own_entries e he).1) (heq ▸ lt_irrefl _)

theorem InOrder.rows_nextRow (h : InOrder spec s) : s.store.rows s.nextRow = none := by
  cases hrow : s.store.rows s.nextRow with
  | none => rfl
  | some value => exact absurd (h.bound _ value hrow) (lt_irrefl _)

section

variable (h : Sound spec store nextRow x)

include h

theorem Sound.lock_held (hrow : row ∈ x.held)
    (hsafe : p.wp spec (store.holdings x) fun v _ => spec.Settled v) :
    Sound spec store nextRow { x with program := p, held := row :: x.held } := by
  have hmem : ∀ r, r ∈ row :: x.held ↔ r ∈ x.held := by
    intro r
    rw [mem_cons, or_iff_right_iff_imp]
    rintro rfl
    exact hrow
  have hholdings : store.holdings { x with program := p, held := row :: x.held } =
      store.holdings x := by
    funext r
    simp only [Store.holdings, hmem]
    rfl
  refine ⟨fun r hr => h.held_lt r ((hmem r).mp hr), fun r hr => h.held_row r ((hmem r).mp hr),
    fun r value hr => mem_cons_of_mem _ (h.own_rows r value hr),
    fun e he => ⟨mem_cons_of_mem _ (h.own_entries e he).1, (h.own_entries e he).2⟩,
    h.fresh, h.distinct, ?_⟩
  rw [hholdings]
  exact hsafe

theorem Sound.lock (hrow : row ∉ x.held) (hvalue : store.rows row = some value)
    (hlt : row < nextRow)
    (hsafe : p.wp spec ((store.holdings x).put row
      ⟨some value, value, entriesOf store.entries row⟩) fun v _ => spec.Settled v) :
    Sound spec store nextRow { x with program := p, held := row :: x.held } := by
  have hfor := h.rowFor_of_not_held hrow
  have hholdings : store.holdings { x with program := p, held := row :: x.held } =
      (store.holdings x).put row ⟨some value, value, entriesOf store.entries row⟩ := by
    funext r
    by_cases hr : r = row
    · subst hr
      have hheld : store.holdings { x with program := p, held := r :: x.held } r =
          some ⟨store.rows r, value, entriesOf (store.entriesFor x) r⟩ :=
        holdings_of_mem mem_cons_self (hfor.trans hvalue)
      rw [Holdings.put_self, hheld, hvalue, h.entriesOf_of_not_held hrow]
    · rw [Holdings.put_of_ne _ hr]
      simp only [Store.holdings, mem_cons, hr, false_or]
      rfl
  refine ⟨?_, ?_, fun r value hr => mem_cons_of_mem _ (h.own_rows r value hr),
    fun e he => ⟨mem_cons_of_mem _ (h.own_entries e he).1, (h.own_entries e he).2⟩,
    h.fresh, h.distinct, ?_⟩
  · intro r hr
    rcases mem_cons.mp hr with rfl | hr
    · exact hlt
    · exact h.held_lt r hr
  · intro r hr
    rcases mem_cons.mp hr with rfl | hr
    · exact ⟨value, hfor.trans hvalue⟩
    · exact h.held_row r hr
  · rw [hholdings]
    exact hsafe

theorem Sound.write (hlt : row < nextRow)
    (hsafe : p.wp spec ((store.holdings x).put row
      ⟨store.rows row, value, entriesOf (store.entriesFor x) row⟩) fun v _ => spec.Settled v) :
    Sound spec store nextRow { x with
      program := p
      held := row :: x.held
      rows := fun r => if r = row then some value else x.rows r } := by
  have hfor : ∀ r, store.rowFor { x with
      program := p
      held := row :: x.held
      rows := fun r => if r = row then some value else x.rows r } r =
        if r = row then some value else store.rowFor x r := by
    intro r
    simp only [Store.rowFor]
    split_ifs
    · rfl
    · rfl
  have hholdings : store.holdings { x with
      program := p
      held := row :: x.held
      rows := fun r => if r = row then some value else x.rows r } = (store.holdings x).put row
        ⟨store.rows row, value, entriesOf (store.entriesFor x) row⟩ := by
    funext r
    by_cases hr : r = row
    · subst hr
      rw [Holdings.put_self]
      exact holdings_of_mem mem_cons_self ((hfor r).trans (if_pos rfl))
    · rw [Holdings.put_of_ne _ hr]
      simp only [Store.holdings, mem_cons, hr, false_or, hfor, if_false]
      rfl
  refine ⟨?_, ?_, ?_,
    fun e he => ⟨mem_cons_of_mem _ (h.own_entries e he).1, (h.own_entries e he).2⟩,
    h.fresh, h.distinct, ?_⟩
  · intro r hr
    rcases mem_cons.mp hr with rfl | hr
    · exact hlt
    · exact h.held_lt r hr
  · intro r hr
    rw [hfor]
    split_ifs with heq
    · exact ⟨value, rfl⟩
    · exact h.held_row r ((mem_cons.mp hr).resolve_left heq)
  · intro r value' hr
    by_cases heq : r = row
    · exact heq ▸ mem_cons_self
    · simp only [if_neg heq] at hr
      exact mem_cons_of_mem _ (h.own_rows r value' hr)
  · rw [hholdings]
    exact hsafe

/-! ### The others go on -/

theorem Sound.commit (hy : Sound spec store nextRow y) (hapart : Apart x y) :
    Sound spec (store.commit y) nextRow x := by
  have hrows : ∀ r ∈ x.held, (store.commit y).rows r = store.rows r := fun r hr =>
    hy.rowFor_of_not_held (hapart.rows r hr)
  have hfor : ∀ r ∈ x.held, (store.commit y).rowFor x r = store.rowFor x r := by
    intro r hr
    rw [Store.rowFor, Store.rowFor, hrows r hr]
  have hholdings : (store.commit y).holdings x = store.holdings x := by
    funext r
    by_cases hr : r ∈ x.held
    · have hentries : entriesOf ((store.commit y).entriesFor x) r =
          entriesOf (store.entriesFor x) r := by
        have hother : entriesOf (store.commit y).entries r = entriesOf store.entries r :=
          hy.entriesOf_of_not_held (hapart.rows r hr)
        rw [Store.entriesFor, entriesOf_append, hother, ← entriesOf_append, Store.entriesFor]
      rw [Store.holdings, Store.holdings, if_pos hr, if_pos hr, hfor r hr, hrows r hr, hentries]
    · rw [Store.holdings, Store.holdings, if_neg hr, if_neg hr]
  refine ⟨h.held_lt, fun r hr => ?_, h.own_rows, h.own_entries, fun e he e' he' => ?_,
    h.distinct, ?_⟩
  · rw [hfor r hr]
    exact h.held_row r hr
  · rcases mem_append.mp he' with he' | he'
    · exact h.fresh e he e' he'
    · exact hapart.keys e he e' he'
  · rw [hholdings]
    exact h.safe

end

section

variable (h : InOrder spec s)

include h

theorem InOrder.set (hx : s.session i = some x) (hsound : Sound spec s.store s.nextRow y)
    (hapart : ∀ j z, j ≠ i → s.session j = some z → Apart y z) :
    InOrder spec (s.set i (some y)) := by
  refine ⟨h.keys, h.bound, h.formed, h.has_row, h.consistent, fun j z hz => ?_,
    fun j k z z' hne hz hz' => ?_⟩
  · by_cases hj : j = i
    · subst hj
      obtain rfl := Option.some.inj ((session_set_self hx).symm.trans hz)
      exact hsound
    · exact h.sound j z ((session_set_of_ne hj).symm.trans hz)
  · by_cases hj : j = i
    · subst hj
      obtain rfl := Option.some.inj ((session_set_self hx).symm.trans hz)
      exact hapart k z' hne.symm ((session_set_of_ne hne.symm).symm.trans hz')
    · have hsame := (session_set_of_ne hj).symm.trans hz
      by_cases hk : k = i
      · subst hk
        obtain rfl := Option.some.inj ((session_set_self hx).symm.trans hz')
        exact (hapart j z hj hsame).symm
      · exact h.apart j k z z' hne hsame ((session_set_of_ne hk).symm.trans hz')

/-- A session ends. -/
theorem InOrder.drop (i : ℕ) : InOrder spec (s.set i none) := by
  have hsession : ∀ j z, (s.set i none).session j = some z → s.session j = some z := by
    intro j z hz
    by_cases hj : j = i
    · rw [hj, session_set_none] at hz
      cases hz
    · exact (session_set_of_ne hj).symm.trans hz
  exact ⟨h.keys, h.bound, h.formed, h.has_row, h.consistent,
    fun j z hz => h.sound j z (hsession j z hz),
    fun j k z z' hne hz hz' => h.apart j k z z' hne (hsession j z hz) (hsession k z' hz')⟩

theorem InOrder.grow : InOrder spec { s with nextRow := s.nextRow + 1 } :=
  ⟨h.keys, fun row value hrow => Nat.lt_succ_of_lt (h.bound row value hrow), h.formed, h.has_row,
    h.consistent, fun j z hz => { h.sound j z hz with
      held_lt := fun row hrow => Nat.lt_succ_of_lt ((h.sound j z hz).held_lt row hrow) },
    h.apart⟩

/-- **A session commits**: what it holds is settled, and nobody else holds it. -/
theorem InOrder.commit (hx : s.session i = some x) (hsettled : spec.Settled (s.store.holdings x)) :
    InOrder spec { s.set i none with store := s.store.commit x } := by
  have hsound := h.sound i x hx
  have hentry : ∀ e ∈ x.entries, ∃ value, s.store.rowFor x (Entry.row e) = some value :=
    fun e he => hsound.held_row _ (hsound.own_entries e he).1
  have hdrop : ∀ j z, (s.set i none).session j = some z → j ≠ i ∧ s.session j = some z := by
    intro j z hz
    by_cases hj : j = i
    · rw [hj, session_set_none] at hz
      cases hz
    · exact ⟨hj, (session_set_of_ne hj).symm.trans hz⟩
  refine ⟨?_, ?_, ?_, ?_, ?_, fun j z hz => ?_, fun j k z z' hne hz hz' => ?_⟩
  · change ((s.store.entries ++ x.entries).map Entry.key).Nodup
    rw [map_append, nodup_append]
    refine ⟨h.keys, hsound.distinct, fun a ha b hb => ?_⟩
    obtain ⟨e', he', rfl⟩ := mem_map.mp ha
    obtain ⟨e, he, rfl⟩ := mem_map.mp hb
    exact (hsound.fresh e he e' he').symm
  · intro row value hrow
    by_cases hheld : row ∈ x.held
    · exact hsound.held_lt row hheld
    · exact h.bound row value ((hsound.rowFor_of_not_held hheld).symm.trans hrow)
  · intro e he
    rcases mem_append.mp he with he | he
    · exact h.formed e he
    · exact (hsound.own_entries e he).2
  · intro e he
    rcases mem_append.mp he with he | he
    · obtain ⟨value, hvalue⟩ := h.has_row e he
      change ∃ value, s.store.rowFor x (Entry.row e) = some value
      cases hown : x.rows (Entry.row e) with
      | none => exact ⟨value, by rw [Store.rowFor, hown, none_or, hvalue]⟩
      | some own => exact ⟨own, by rw [Store.rowFor, hown, some_or]⟩
    · exact hentry e he
  · intro row value hrow
    by_cases hheld : row ∈ x.held
    · exact (hsettled row _ (holdings_of_mem hheld hrow)).1
    · have hentries : entriesOf (s.store.commit x).entries row = entriesOf s.store.entries row :=
        hsound.entriesOf_of_not_held hheld
      change spec.Consistent row value (entriesOf (s.store.commit x).entries row)
      rw [hentries]
      exact h.consistent row value ((hsound.rowFor_of_not_held hheld).symm.trans hrow)
  · obtain ⟨hj, hz⟩ := hdrop j z hz
    exact (h.sound j z hz).commit hsound (h.apart j i z x hj hz hx)
  · exact h.apart j k z z' hne (hdrop j z hz).2 (hdrop k z' hz').2

theorem InOrder.read (hx : s.session i = some x)
    (hsafe : p.wp spec (s.store.holdings x) fun v _ => spec.Settled v) :
    InOrder spec (s.set i (some { x with program := p })) :=
  h.set hx ((h.sound i x hx).goOn hsafe) fun j z hj hz =>
    let hapart := h.apart i j x z hj.symm hx hz
    ⟨hapart.rows, hapart.keys⟩

/-- **An operation is called.** Its session holds nothing yet. -/
theorem InOrder.start (hp : p.Keeps spec) :
    InOrder spec { s with sessions := s.sessions ++ [some ⟨p, [], fun _ => none, []⟩] } := by
  have hsession : ∀ j z, System.session { s with
      sessions := s.sessions ++ [some ⟨p, [], fun _ => none, []⟩] } j = some z →
      s.session j = some z ∨ z = ⟨p, [], fun _ => none, []⟩ := by
    intro j z hz
    rw [System.session] at hz ⊢
    rcases lt_or_ge j s.sessions.length with hlt | hge
    · rw [getElem?_append_left hlt] at hz
      exact .inl hz
    · rw [getElem?_append_right hge] at hz
      cases hj : j - s.sessions.length with
      | zero =>
        rw [hj] at hz
        exact .inr (Option.some.inj hz).symm
      | succ n =>
        rw [hj] at hz
        cases hz
  have hnew : Sound spec s.store s.nextRow (⟨p, [], fun _ => none, []⟩ : Session ρ η κ ε) := by
    refine ⟨by simp, by simp, by simp, by simp, by simp, by simp, ?_⟩
    have hnone : s.store.holdings (⟨p, [], fun _ => none, []⟩ : Session ρ η κ ε) =
        fun _ => none := by
      funext row
      simp [Store.holdings]
    rw [hnone]
    exact hp _ fun row hold hhold => by cases hhold
  refine ⟨h.keys, h.bound, h.formed, h.has_row, h.consistent, fun j z hz => ?_,
    fun j k z z' hne hz hz' => ?_⟩
  · rcases hsession j z hz with hz | rfl
    · exact h.sound j z hz
    · exact hnew
  · rcases hsession j z hz with hz | rfl
    · rcases hsession k z' hz' with hz' | rfl
      · exact h.apart j k z z' hne hz hz'
      · exact ⟨by simp, by simp⟩
    · exact ⟨by simp, by simp⟩

end

theorem InOrder.empty : InOrder spec (System.empty : System ρ η κ ε) := by
  refine ⟨by simp [System.empty], by simp [System.empty], by simp [System.empty],
    by simp [System.empty], by simp [System.empty], ?_, ?_⟩
  · intro i x hx
    cases hx
  · intro i j x y _ hx
    cases hx

variable [DecidableEq κ]

theorem find_eq_some {key : κ} {e : η} (h : store.find x key = some e) :
    Entry.key e = key ∧ e ∈ store.entriesFor x := by
  rw [Store.find] at h
  have hkey := find?_some h
  exact ⟨of_decide_eq_true hkey, mem_of_find?_eq_some h⟩

theorem Sound.append (h : Sound spec store nextRow x) {entry : η} {hold : Holding ρ η}
    (hrow : store.holdings x (Entry.row entry) = some hold) (hformed : spec.Formed entry)
    (hfind : store.find x (Entry.key entry) = none)
    (hsafe : p.wp spec ((store.holdings x).put (Entry.row entry)
      { hold with entries := hold.entries ++ [entry] }) fun v _ => spec.Settled v) :
    Sound spec store nextRow { x with program := p, entries := x.entries ++ [entry] } := by
  obtain ⟨hheld, hfor, hcommitted, hentries⟩ := holdings_eq_some hrow
  have hkey : ∀ e ∈ store.entriesFor x, Entry.key e ≠ Entry.key entry := by
    intro e he heq
    exact find?_eq_none.mp hfind e he (decide_eq_true heq)
  have hholdings : store.holdings { x with program := p, entries := x.entries ++ [entry] } =
      (store.holdings x).put (Entry.row entry)
        { hold with entries := hold.entries ++ [entry] } := by
    funext r
    have hof : entriesOf (store.entriesFor
        { x with program := p, entries := x.entries ++ [entry] }) r =
          entriesOf (store.entriesFor x) r ++ entriesOf [entry] r := by
      rw [← entriesOf_append, Store.entriesFor, Store.entriesFor, append_assoc]
    by_cases hr : r = Entry.row entry
    · subst hr
      have hsingle : entriesOf [entry] (Entry.row entry) = [entry] := by
        simp [entriesOf]
      rw [Holdings.put_self, Store.holdings]
      simp only [hof, hsingle, ← hentries, ← hcommitted, if_pos hheld]
      change (store.rowFor x _).map _ = _
      rw [hfor]
      rfl
    · have hsingle : entriesOf [entry] r = [] := by
        simp [entriesOf, Ne.symm hr]
      rw [Holdings.put_of_ne _ hr, Store.holdings, Store.holdings]
      simp only [hof, hsingle, append_nil]
      rfl
  refine ⟨h.held_lt, h.held_row, h.own_rows, ?_, ?_, ?_, ?_⟩
  · intro e he
    rcases mem_append.mp he with he | he
    · exact h.own_entries e he
    · rw [mem_singleton.mp he]
      exact ⟨hheld, hformed⟩
  · intro e he e' he'
    rcases mem_append.mp he with he | he
    · exact h.fresh e he e' he'
    · rw [mem_singleton.mp he]
      exact (hkey e' (mem_append_left _ he')).symm
  · rw [map_append, nodup_append]
    refine ⟨h.distinct, pairwise_singleton _ _, ?_⟩
    intro a ha b hb
    obtain ⟨e, he, rfl⟩ := mem_map.mp ha
    rw [mem_singleton.mp hb]
    exact hkey e (mem_append_right _ he)
  · rw [hholdings]
    exact hsafe


/-! ### Steps -/

/-- Whether no sure entry is forestalled by a step: the statement that would insert it finds none
under its key. -/
def System.unforestalled (spec : Spec ρ η) (s : System ρ η κ ε) : Event op → Bool
  | .run i => (s.session i).all fun x =>
    match x.program with
    | .insertEntry entry _ => !spec.Sure entry || (s.store.find x (Entry.key entry)).isNone
    | _ => true
  | _ => true

variable {program : op → Program ρ η κ ε Unit} {event : Event op}

/-- **The next statement of a session keeps the system in order.** -/
theorem InOrder.advance (h : InOrder spec s) (hx : s.session i = some x)
    (hunforestalled : ∀ entry next, x.program = .insertEntry entry next → spec.Sure entry = true →
      s.store.find x (Entry.key entry) = none)
    (hstep : s.advance i x = .ok s') : InOrder spec s' := by
  have hsound := h.sound i x hx
  have hapart : ∀ j z, j ≠ i → s.session j = some z → Apart x z := fun j z hj hz =>
    h.apart i j x z hj.symm hx hz
  have hsafe := hsound.safe
  rw [System.advance] at hstep
  cases hprogram : x.program with
  | result outcome =>
    rw [hprogram] at hstep hsafe
    cases outcome with
    | error e =>
      obtain rfl := Except.ok.inj hstep
      exact h.drop i
    | ok a =>
      obtain rfl := Except.ok.inj hstep
      exact h.commit hx hsafe
  | readEntry key next | readEntries which next | readRows which next =>
    rw [hprogram] at hstep hsafe
    obtain rfl := Except.ok.inj hstep
    exact h.read hx (hsafe _)
  | lockRow row next =>
    rw [hprogram] at hstep hsafe
    obtain ⟨hheld, hfree⟩ := hsafe
    dsimp only at hstep
    cases hrow : s.store.rowFor x row with
    | none =>
      rw [hrow] at hstep
      obtain rfl := Except.ok.inj hstep
      have hnot : row ∉ x.held := by
        intro hmem
        obtain ⟨value, hvalue⟩ := hsound.held_row row hmem
        rw [hrow] at hvalue
        cases hvalue
      exact h.read hx (hfree (hsound.holdings_eq_none.mpr hnot)).1
    | some value =>
      rw [hrow] at hstep
      dsimp only at hstep
      split_ifs at hstep with hothers
      obtain rfl := Except.ok.inj hstep
      rw [Bool.not_eq_true] at hothers
      by_cases hmem : row ∈ x.held
      · refine h.set hx (hsound.lock_held hmem (hheld _ (holdings_of_mem hmem hrow)))
          fun j z hj hz => ⟨fun r hr => ?_, (hapart j z hj hz).keys⟩
        rcases mem_cons.mp hr with rfl | hr
        · exact not_held_of_others hothers hj hz
        · exact (hapart j z hj hz).rows r hr
      · have hvalue := (hsound.rowFor_of_not_held hmem).symm.trans hrow
        have hnone := hfree (hsound.holdings_eq_none.mpr hmem)
        refine h.set hx (hsound.lock hmem hvalue (h.bound row value hvalue)
          (hnone.2 value _ (h.consistent row value hvalue)))
          fun j z hj hz => ⟨fun r hr => ?_, (hapart j z hj hz).keys⟩
        rcases mem_cons.mp hr with rfl | hr
        · exact not_held_of_others hothers hj hz
        · exact (hapart j z hj hz).rows r hr
  | insertRow value next =>
    rw [hprogram] at hstep hsafe
    obtain rfl := Except.ok.inj hstep
    have hgrown := h.grow
    have hnot : s.nextRow ∉ x.held := fun hmem => lt_irrefl _ (hsound.held_lt _ hmem)
    refine hgrown.set hx ((hgrown.sound i x hx).write (Nat.lt_succ_self _) ?_)
      fun j z hj hz => ⟨fun r hr => ?_, (hapart j z hj hz).keys⟩
    · change Program.wp spec _ ((s.store.holdings x).put s.nextRow ⟨s.store.rows s.nextRow, value,
        entriesOf (s.store.entriesFor x) s.nextRow⟩) _
      rw [h.rows_nextRow, h.entriesFor_eq_nil hsound]
      exact hsafe _ (hsound.holdings_eq_none.mpr hnot)
    · rcases mem_cons.mp hr with rfl | hr
      · exact fun hmem => lt_irrefl _ ((h.sound j z hz).held_lt _ hmem)
      · exact (hapart j z hj hz).rows r hr
  | updateRow row guard write next =>
    rw [hprogram] at hstep hsafe
    obtain ⟨hold, hhold, htrue, hfalse⟩ := hsafe
    obtain ⟨hmem, hrow, hcommitted, hentries⟩ := holdings_eq_some hhold
    dsimp only at hstep
    rw [hrow] at hstep
    dsimp only at hstep
    split_ifs at hstep with hothers hguard
    · obtain rfl := Except.ok.inj hstep
      refine h.set hx (hsound.write (hsound.held_lt row hmem) ?_)
        fun j z hj hz => ⟨fun r hr => ?_, (hapart j z hj hz).keys⟩
      · rw [← hcommitted, ← hentries]
        exact htrue hguard
      · rcases mem_cons.mp hr with rfl | hr
        · exact (hapart j z hj hz).rows _ hmem
        · exact (hapart j z hj hz).rows r hr
    · obtain rfl := Except.ok.inj hstep
      exact h.read hx (hfalse (Bool.eq_false_iff.mpr hguard))
  | insertEntry entry next =>
    rw [hprogram] at hstep hsafe
    obtain ⟨hformed, hold, hhold, hnew, hfound⟩ := hsafe
    dsimp only at hstep
    split_ifs at hstep with hothers
    cases hfind : s.store.find x (Entry.key entry) with
    | none =>
      rw [hfind] at hstep
      obtain rfl := Except.ok.inj hstep
      refine h.set hx (hsound.append hhold hformed hfind hnew)
        fun j z hj hz => ⟨(hapart j z hj hz).rows, fun e he e' he' => ?_⟩
      rcases mem_append.mp he with he | he
      · exact (hapart j z hj hz).keys e he e' he'
      · rw [mem_singleton.mp he]
        intro heq
        refine hothers (any_eq_true.mpr ⟨z, mem_others hj hz, any_eq_true.mpr
          ⟨e', he', decide_eq_true heq.symm⟩⟩)
    | some other =>
      rw [hfind] at hstep
      obtain rfl := Except.ok.inj hstep
      obtain ⟨hkey, hother⟩ := find_eq_some hfind
      refine h.read hx (hfound other hkey ?_ (fun hold hhold => ?_)
        (Bool.eq_false_iff.mpr fun hsure => ?_))
      · rcases mem_append.mp hother with hmem | hmem
        · exact h.formed other hmem
        · exact (hsound.own_entries other hmem).2
      · rw [(holdings_eq_some hhold).2.2.2]
        exact mem_entriesOf.mpr ⟨hother, rfl⟩
      · rw [hunforestalled entry next hprogram hsure] at hfind
        cases hfind

/-- **Every step keeps the system in order**, if the programs keep their rules and no sure entry
is forestalled. -/
theorem InOrder.step (h : InOrder spec s) (hprogram : ∀ operation, (program operation).Keeps spec)
    (hunforestalled : s.unforestalled spec event = true) (hstep : s.step program event = .ok s') :
    InOrder spec s' := by
  cases event with
  | start operation =>
    obtain rfl := Except.ok.inj hstep
    exact h.start (hprogram operation)
  | run i =>
    simp only [System.step] at hstep
    cases hx : s.session i with
    | none =>
      rw [hx] at hstep
      cases hstep
    | some x =>
      rw [hx] at hstep
      refine h.advance hx (fun entry next hp hsure => ?_) hstep
      simp only [System.unforestalled, hx, all_some, hp, hsure, Bool.not_true,
        Bool.false_or, isNone_iff_eq_none] at hunforestalled
      exact hunforestalled
  | abort i =>
    obtain rfl := Except.ok.inj hstep
    exact h.drop i

/-- **Every system that is reached is in order.** -/
theorem InOrder.of_reached (hprogram : ∀ operation, (program operation).Keeps spec)
    (h : Runs.ReachedBy (fun s event => s.unforestalled spec event = true) (System.step program)
      System.empty s) :
    InOrder spec s :=
  h.invariant .empty fun _ _ _ hs hunforestalled hstep => hs.step hprogram hunforestalled hstep

/-- What a statement writes is not for others to see, and a commit is of one session. -/
theorem store_of_advance (hstep : s.advance i x = .ok s') :
    s'.store = s.store ∨ (∃ a, x.program = .result (.ok a)) ∧ s'.store = s.store.commit x := by
  rw [System.advance] at hstep
  cases hprogram : x.program with
  | result outcome =>
    rw [hprogram] at hstep
    cases outcome with
    | error e =>
      obtain rfl := Except.ok.inj hstep
      exact .inl rfl
    | ok a =>
      obtain rfl := Except.ok.inj hstep
      exact .inr ⟨⟨a, rfl⟩, rfl⟩
  | readEntry key next | readEntries which next | readRows which next | insertRow value next =>
    rw [hprogram] at hstep
    obtain rfl := Except.ok.inj hstep
    exact .inl rfl
  | lockRow row next | updateRow row guard write next =>
    rw [hprogram] at hstep
    dsimp only at hstep
    cases hrow : s.store.rowFor x row with
    | none =>
      rw [hrow] at hstep
      obtain rfl := Except.ok.inj hstep
      exact .inl rfl
    | some value =>
      rw [hrow] at hstep
      dsimp only at hstep
      split_ifs at hstep
      all_goals
        obtain rfl := Except.ok.inj hstep
        exact .inl rfl
  | insertEntry entry next =>
    rw [hprogram] at hstep
    dsimp only at hstep
    split_ifs at hstep
    cases hfind : s.store.find x (Entry.key entry) with
    | none | some other =>
      rw [hfind] at hstep
      obtain rfl := Except.ok.inj hstep
      exact .inl rfl

/-- **What is committed stays**: entries are only added, behind those there are. -/
theorem entries_of_reached (h : Runs.ReachedBy condition (System.step program) s s') :
    s.store.entries <+: s'.store.entries := by
  induction h with
  | start => exact prefix_rfl
  | @step t t' event _ _ hstep ih =>
    refine ih.trans ?_
    cases event with
    | start operation | abort i =>
      obtain rfl := Except.ok.inj hstep
      exact prefix_rfl
    | run i =>
      simp only [System.step] at hstep
      cases hx : t.session i with
      | none =>
        rw [hx] at hstep
        cases hstep
      | some x =>
        rw [hx] at hstep
        rcases store_of_advance hstep with heq | ⟨-, heq⟩
        · exact heq ▸ prefix_rfl
        · rw [heq]
          exact prefix_append _ _

/-- **What is committed of a row changes only as it is allowed to.** -/
theorem InOrder.allowed (h : InOrder spec s) (hstep : s.step program event = .ok s')
    (hrow : s.store.rows row = some value) :
    ∃ value', s'.store.rows row = some value' ∧ spec.Allowed value value' := by
  have hsame : s'.store = s.store →
      ∃ value', s'.store.rows row = some value' ∧ spec.Allowed value value' := fun heq =>
    ⟨value, by rw [heq, hrow], spec.allowed_refl value⟩
  cases event with
  | start operation | abort i =>
    obtain rfl := Except.ok.inj hstep
    exact hsame rfl
  | run i =>
    simp only [System.step] at hstep
    cases hx : s.session i with
    | none =>
      rw [hx] at hstep
      cases hstep
    | some x =>
      rw [hx] at hstep
      rcases store_of_advance hstep with heq | ⟨⟨a, hprogram⟩, heq⟩
      · exact hsame heq
      · have hsound := h.sound i x hx
        have hsettled : spec.Settled (s.store.holdings x) := by
          have hsafe := hsound.safe
          rwa [hprogram] at hsafe
        rw [heq]
        change ∃ value', s.store.rowFor x row = some value' ∧ spec.Allowed value value'
        by_cases hheld : row ∈ x.held
        · obtain ⟨value', hvalue'⟩ := hsound.held_row row hheld
          exact ⟨value', hvalue', (hsettled row _ (holdings_of_mem hheld hvalue')).2 value hrow⟩
        · exact ⟨value, (hsound.rowFor_of_not_held hheld).trans hrow, spec.allowed_refl value⟩

end Transactions
