import OpenBooks.Lib.TransactionSafety
import OpenBooks.StoredValue.Operations

/-!
# A balance is its history

What every committed state of the stored-value tables keeps, whatever runs beside what
(`StoredValue.AccountInOrder`): a balance is not negative, is the sum of the amounts of
its entries and the balance after the latest of them, and an account that has ended holds nothing.
An account that has ended is never used again, and no key is there twice.

It is kept by every step in which no load that mints its account is forestalled, that is, finds an
entry of another request under its key when it records its own
(`StoredValue.balance_is_history`). A load that is forestalled keeps the account that it
minted, with a balance and no entry (`StoredValue.forestalled_load_has_no_entry`).
-/

namespace OpenBooks.StoredValue

open Checked Transactions Transactions.Program List Option

/-! ### What is in order -/

/-- An account that can no longer be used. -/
def StoredValueStatus.ended : StoredValueStatus → Prop
  | .active => False
  | .frozen => False
  | .closed => True
  | .expired => True

/-- An account and its entries, in order. -/
structure AccountInOrder (account : StoredValueAccountRow) (entries : List StoredValueEntry) :
    Prop where
  nonneg : 0 ≤ account.balanceMinor
  sum : account.balanceMinor = (entries.map (·.amountMinor)).sum
  latest : entries.getLast?.map (·.balanceAfter) = some account.balanceMinor
  ended : account.status.ended → account.balanceMinor = 0
  expired : ∀ e ∈ entries, ∀ key, e.idempotencyKey = .expire key → account.status.ended

def EntryKey.isLoad : EntryKey → Bool
  | .load _ => true
  | _ => false

/-- What the operations keep. The loads that mint an account insert their entry without asking
whether it was there. -/
def history : Spec StoredValueAccountRow StoredValueEntry where
  Consistent _ := AccountInOrder
  Formed e := ∀ key, e.idempotencyKey = .expire key → e.accountId = key
  Allowed old new := old.status.ended → new.status.ended
  allowed_refl _ := id
  Sure e := e.kind = .issue ∧ e.idempotencyKey.isLoad

/-- What a movement does to an account. -/
structure Movement.Moves (movement : Movement) (accountId : ℕ) (account : StoredValueAccountRow) :
    Prop where
  row : movement.entry.accountId = accountId
  balance : (movement.write account).balanceMinor =
    account.balanceMinor + movement.entry.amountMinor
  after : movement.entry.balanceAfter = (movement.write account).balanceMinor
  nonneg : 0 ≤ (movement.write account).balanceMinor
  ended : (movement.write account).status.ended → (movement.write account).balanceMinor = 0
  allowed : account.status.ended → (movement.write account).status.ended
  expire : ∀ key, movement.entry.idempotencyKey = .expire key →
    key = accountId ∧ (movement.write account).status.ended

variable {accountId : ℕ} {account : StoredValueAccountRow} {entries : List StoredValueEntry}
  {movement : Movement}

/-- **A movement keeps an account in order.** -/
theorem AccountInOrder.move (h : AccountInOrder account entries)
    (hmoves : movement.Moves accountId account) :
    AccountInOrder (movement.write account) (entries ++ [movement.entry]) where
  nonneg := hmoves.nonneg
  sum := by
    rw [hmoves.balance, h.sum, map_append, sum_append, map_singleton, sum_singleton]
  latest := by
    rw [getLast?_append, getLast?_singleton, some_or, map_some,
      hmoves.after]
  ended := hmoves.ended
  expired := by
    intro e he key hkey
    rcases mem_append.mp he with he | he
    · exact hmoves.allowed (h.expired e he key hkey)
    · obtain rfl := mem_singleton.mp he
      exact (hmoves.expire key hkey).2

theorem Movement.Moves.formed (h : movement.Moves accountId account) :
    history.Formed movement.entry := by
  intro key hkey
  rw [h.row, (h.expire key hkey).1]

/-! ### Statements -/

variable {α β : Type} {v : Holdings StoredValueAccountRow StoredValueEntry}

abbrev AccountHoldings := Holdings StoredValueAccountRow StoredValueEntry

theorem wp_lockStoredValueAccount {allowedSubsidiaryIds : SubsidiaryScope}
    {Q : AccountHoldings → StoredValueAccountRow → Prop} (hv : history.Settled v)
    (hQ : ∀ v' h, history.Settled v' → v' accountId = some h → Q v' h.row) :
    (lockStoredValueAccount accountId allowedSubsidiaryIds).wp history v Q := by
  unfold lockStoredValueAccount
  rw [wp_bind]
  refine wp_selectForUpdate hv ?_ fun v' h hv' hrow => ?_
  · simp only [wp_bind, wp_check, orRefuse_eq_ok]
    intro a ha
    cases ha
  · simp only [wp_bind, wp_check, orRefuse_eq_ok, wp_pure]
    rintro row hsome _ -
    obtain rfl := Option.some.inj hsome
    exact hQ v' h hv' hrow

variable {Q : AccountHoldings → Option StoredValueEntry → Prop}

theorem wp_priorStoredValueEntry {key : EntryKey} {expected : ExpectedEntry}
    (hQ : ∀ found, Q v found) : (priorStoredValueEntry key expected).wp history v Q := by
  unfold priorStoredValueEntry
  simp only [wp_bind, wp_select, wp_check]
  exact fun _ found _ => hQ found

theorem wp_accountFunctionalTotal {Q : AccountHoldings → ℤ → Prop} (hQ : ∀ total, Q v total) :
    (accountFunctionalTotal accountId).wp history v Q := by
  unfold accountFunctionalTotal
  simp only [wp_bind, wp_selectWhere, wp_pure]
  exact fun _ => hQ _

variable {h : Holding StoredValueAccountRow StoredValueEntry}

/-- **The rule of movements**: a movement of an account that is held. -/
theorem wp_applyMovement {guard : StoredValueAccountRow → Bool} {changed : String}
    (hv : history.Settled v) (hrow : v accountId = some h)
    (hmoves : movement.Moves accountId h.row) (hnew : ∀ v', history.Settled v' → Q v' none)
    (hfound : ∀ v' other, other.idempotencyKey = movement.entry.idempotencyKey →
      history.Formed other → (other.accountId = accountId → other ∈ h.entries) →
        Q v' (some other)) : (applyMovement accountId guard changed movement).wp history v Q := by
  obtain ⟨hconsistent, hallowed⟩ := hv accountId h hrow
  unfold applyMovement
  rw [wp_bind]
  refine ⟨h, hrow, fun _ => ?_, fun _ => ?_⟩
  · simp only [wp_bind, wp_pure, wp_check]
    intro _ _
    refine ⟨hmoves.formed, ⟨h.committed, movement.write h.row, h.entries⟩, ?_, ?_, ?_⟩
    · change v.put accountId _ movement.entry.accountId = _
      rw [hmoves.row, Holdings.put_self]
    · change Q ((v.put accountId _).put movement.entry.accountId _) none
      rw [hmoves.row, Holdings.put_put]
      exact hnew _ (hv.put (hconsistent.move hmoves) fun r hr hended =>
        hmoves.allowed (hallowed r hr hended))
    · intro other hkey hformed hheld _
      refine hfound _ other hkey hformed fun hother => ?_
      have hput : v.put accountId ⟨h.committed, movement.write h.row, h.entries⟩ other.accountId =
          some ⟨h.committed, movement.write h.row, h.entries⟩ := by
        rw [hother, Holdings.put_self]
      have hmem := hheld _ hput
      exact hmem
  · simp only [wp_bind, wp_pure, wp_check, refuseIf_eq_ok]
    intro _ hfalse
    exact absurd trivial hfalse

/-! ### Movements -/

variable {doc : DocumentFxContext}

theorem topUp_moves {s : Surroundings} {input : DocumentLoadInput}
    (hamount : 0 < input.amountMinor) (haccount : 0 ≤ account.balanceMinor)
    (h : s.topUp input doc accountId account = .ok movement) :
    movement.Moves accountId account := by
  simp only [Surroundings.topUp, bind_eq_ok, refuseIf_eq_ok, pure_eq_ok, not_not] at h
  obtain ⟨_, _, _, hactive, _, _, _, _, _, _, _, _, _, _, rfl⟩ := h
  have hlive : ¬account.status.ended := by
    rw [hactive]
    exact id
  exact
    { row := rfl
      balance := rfl
      after := rfl
      nonneg := add_nonneg haccount hamount.le
      ended := fun hended => absurd hended hlive
      allowed := id
      expire := fun key hkey => by cases hkey }

theorem redemption_moves {s : Surroundings} {input : RedeemInput} (pricing : RedemptionPricing)
    (h : s.assertRedemption input account = .ok ()) :
    (s.redemption input account pricing).Moves input.accountId account := by
  simp only [Surroundings.assertRedemption, assertRedeemable, bind_eq_ok, refuseIf_eq_ok, not_not]
    at h
  obtain ⟨_, _, _, ⟨_, hactive, _, _, hcovers⟩, _⟩ := h
  have hlive : ¬account.status.ended := by
    rw [hactive]
    exact id
  exact
    { row := rfl
      balance := sub_eq_add_neg _ _
      after := rfl
      nonneg := sub_nonneg.mpr (not_lt.mp hcovers)
      ended := fun hended => absurd hended hlive
      allowed := id
      expire := fun key hkey => by cases hkey }

theorem adjustment_moves {s : Surroundings} {input : AdjustInput}
    (h : s.adjustment input account = .ok movement) : movement.Moves input.accountId account := by
  simp only [Surroundings.adjustment, bind_eq_ok, refuseIf_eq_ok, pure_eq_ok, not_or] at h
  obtain ⟨_, ⟨hclosed, hexpired⟩, _, hnonneg, _, _, _, _, _, _, _, _, _, _, rfl⟩ := h
  have hlive : ¬account.status.ended := by
    intro hended
    cases hstatus : account.status with
    | active | frozen => rwa [hstatus] at hended
    | closed => exact hclosed hstatus
    | expired => exact hexpired hstatus
  exact
    { row := rfl
      balance := rfl
      after := rfl
      nonneg := not_lt.mp hnonneg
      ended := fun hended => absurd hended hlive
      allowed := id
      expire := fun key hkey => by cases hkey }

variable {postingDate : CivilDate} {functionalPrior : ℤ}

theorem expiry_eq {s : Surroundings}
    (h : s.expiry postingDate accountId accountId account functionalPrior = .ok movement) :
    ∃ journalEntryId, movement =
      { write := fun row =>
          { row with balanceMinor := 0, status := .expired, lastActivityOn := s.currentDate }
        entry := releaseEntry .expire accountId account functionalPrior account.balanceMinor
          journalEntryId (.expire accountId) } := by
  unfold Surroundings.expiry at h
  obtain ⟨_, -, h⟩ := bind_eq_ok.mp h
  split_ifs at h
  · obtain ⟨journalEntryId, -, h⟩ := bind_eq_ok.mp h
    exact ⟨journalEntryId, (Except.ok.inj h).symm⟩
  · exact ⟨none, (Except.ok.inj h).symm⟩

theorem expiry_moves {s : Surroundings}
    (h : s.expiry postingDate accountId accountId account functionalPrior = .ok movement) :
    movement.Moves accountId account := by
  obtain ⟨_, rfl⟩ := expiry_eq h
  exact
    { row := rfl
      balance := (add_neg_cancel _).symm
      after := sub_self _
      nonneg := le_rfl
      ended := fun _ => rfl
      allowed := fun _ => trivial
      expire := fun key hkey => ⟨(EntryKey.expire.inj hkey).symm, trivial⟩ }

theorem remoteBreakage_moves {s : Surroundings}
    (h : s.remoteBreakage postingDate accountId account functionalPrior = .ok movement) :
    movement.Moves accountId account := by
  simp only [Surroundings.remoteBreakage, bind_eq_ok, pure_eq_ok] at h
  obtain ⟨_, _, rfl⟩ := h
  exact
    { row := rfl
      balance := (add_neg_cancel _).symm
      after := sub_self _
      nonneg := le_rfl
      ended := fun _ => rfl
      allowed := fun _ => trivial
      expire := fun key hkey => by cases hkey }

theorem proportionalBreakage_moves {s : Surroundings} {period : String}
    {program : StoredValueProgramRow} {redeemed : ℤ} (hactive : account.status = .active)
    (h : s.proportionalBreakage postingDate period accountId account
      (proportionalAmount program account redeemed) functionalPrior = .ok movement) :
    movement.Moves accountId account := by
  simp only [Surroundings.proportionalBreakage, bind_eq_ok, pure_eq_ok] at h
  obtain ⟨_, _, rfl⟩ := h
  have hlive : ¬account.status.ended := by
    rw [hactive]
    exact id
  exact
    { row := rfl
      balance := sub_eq_add_neg _ _
      after := rfl
      nonneg := sub_nonneg.mpr (min_le_right _ _)
      ended := fun hended => absurd hended hlive
      allowed := id
      expire := fun key hkey => by cases hkey }

/-! ### Accounts that are minted -/

/-- What a new account and its first entry are. -/
structure Minting.Mints (minting : Minting) : Prop where
  row : ∀ accountId, (minting.entry accountId).accountId = accountId
  amount : ∀ accountId, (minting.entry accountId).amountMinor = minting.row.balanceMinor
  after : ∀ accountId, (minting.entry accountId).balanceAfter = minting.row.balanceMinor
  nonneg : 0 ≤ minting.row.balanceMinor
  live : ¬minting.row.status.ended
  key : ∀ accountId key, (minting.entry accountId).idempotencyKey ≠ .expire key

variable {minting : Minting}

theorem Minting.Mints.inOrder (h : minting.Mints) (accountId : ℕ) :
    AccountInOrder minting.row [minting.entry accountId] where
  nonneg := h.nonneg
  sum := by rw [map_singleton, sum_singleton, h.amount]
  latest := by rw [getLast?_singleton, map_some, h.after]
  ended := fun hended => absurd hended h.live
  expired := by
    intro e he key hkey
    obtain rfl := mem_singleton.mp he
    exact absurd hkey (h.key accountId key)

/-- **The rule of mintings**: the first entry of a new account. -/
theorem wp_append_first (hmints : minting.Mints) (hv : history.Settled v)
    (hnew : ∀ v', history.Settled v' → Q v' none)
    (hfound : ∀ v' other, history.Sure (minting.entry accountId) = false → Q v' (some other)) :
    (append (minting.entry accountId) : Transaction _).wp history
      (v.put accountId ⟨none, minting.row, []⟩) Q := by
  refine ⟨fun key hkey => absurd hkey (hmints.key accountId key),
    ⟨none, minting.row, []⟩, ?_, ?_, ?_⟩
  · change v.put accountId _ (minting.entry accountId).accountId = _
    rw [hmints.row, Holdings.put_self]
  · change Q ((v.put accountId _).put (minting.entry accountId).accountId _) none
    rw [hmints.row, Holdings.put_put]
    refine hnew _ (hv.put (hmints.inOrder accountId) fun r hr => ?_)
    cases hr
  · exact fun other _ _ _ hsure => hfound _ other hsure

theorem documentIssue_mints {s : Surroundings} {input : DocumentIssueInput}
    (h : s.documentIssue input = .ok minting) : minting.Mints := by
  simp only [Surroundings.documentIssue, assertProgramIssues, bind_eq_ok, refuseIf_eq_ok,
    pure_eq_ok] at h
  obtain ⟨_, _, _, ⟨_, _, _, _, _, hamount, _⟩, _, _, _, _, _, _, _, _, _, _, _, _, rfl⟩ := h
  exact
    { row := fun _ => rfl
      amount := fun _ => rfl
      after := fun _ => rfl
      nonneg := (not_le.mp hamount).le
      live := id
      key := fun _ key hkey => by cases hkey }

theorem mint_mints {s : Surroundings} {input : DocumentLoadInput}
    (hamount : 0 < input.amountMinor) (h : s.mint input doc = .ok minting) : minting.Mints := by
  simp only [Surroundings.mint, bind_eq_ok, pure_eq_ok] at h
  obtain ⟨_, _, _, _, _, _, _, _, _, _, _, _, _, _, _, _, _, _, rfl⟩ := h
  exact
    { row := fun _ => rfl
      amount := fun _ => rfl
      after := fun _ => rfl
      nonneg := hamount.le
      live := id
      key := fun _ key hkey => by cases hkey }

theorem directIssue_mints {s : Surroundings} {input : IssueInput} {subsidiaryId : Option ℕ}
    {issue : CivilDate × Minting} (h : s.directIssue input subsidiaryId = .ok issue)
    (journalEntryId : Option ℕ) :
    Minting.Mints ⟨issue.2.row, fun accountId =>
      { issue.2.entry accountId with journalEntryId := journalEntryId }⟩ := by
  simp only [Surroundings.directIssue, assertProgramIssues, bind_eq_ok, refuseIf_eq_ok,
    pure_eq_ok] at h
  obtain ⟨_, _, _, ⟨_, _, _, _, _, hamount, _⟩, _, _, _, _, _, _, _, _, _, _, _, _, _, _, rfl⟩ := h
  exact
    { row := fun _ => rfl
      amount := fun _ => rfl
      after := fun _ => rfl
      nonneg := (not_le.mp hamount).le
      live := id
      key := fun _ key hkey => by cases hkey }

/-! ### Operations -/

variable (s : Surroundings)

theorem keeps_issueStoredValue (input : IssueInput) : (issueStoredValue s input).Keeps history := by
  intro v hv
  unfold issueStoredValue
  simp only [wp_bind, wp_check, wp_select]
  intro _ _ subsidiaryId _ replayed
  cases replayed with
  | some replayedRef =>
    refine wp_bind.mpr (wp_lockStoredValueAccount hv fun v' h hv' _ => ?_)
    refine wp_bind.mpr (wp_priorStoredValueEntry fun prior => ?_)
    simp only [wp_bind, wp_check]
    exact fun _ _ _ _ => hv'
  | none =>
    rw [wp_bind, wp_check]
    intro issue hissue
    rw [wp_bind]
    intro accountId _
    simp only [wp_pure, wp_bind, wp_check]
    intro journalEntryId _
    refine wp_append_first (directIssue_mints hissue (some journalEntryId)) hv
      (fun v' hv' _ _ => hv') fun v' other _ _ hfresh => ?_
    exact absurd rfl (refuseIf_eq_ok.mp hfresh)

theorem keeps_attachDocumentIssue (input : DocumentIssueInput) :
    (attachDocumentIssue s input).Keeps history := by
  intro v hv
  unfold attachDocumentIssue
  simp only [wp_bind, wp_check, wp_select]
  intro _ _ replayed
  cases replayed with
  | some _ => exact hv
  | none =>
    rw [wp_bind, wp_check]
    intro issue hissue
    rw [wp_bind]
    intro accountId _
    simp only [wp_pure, wp_bind, wp_check]
    refine wp_append_first (documentIssue_mints hissue) hv (fun v' hv' _ _ => hv')
      fun v' other _ _ hfresh => ?_
    exact absurd rfl (refuseIf_eq_ok.mp hfresh)

theorem keeps_topUpAccount (input : DocumentLoadInput) (doc : DocumentFxContext) (accountId : ℕ)
    (hamount : 0 < input.amountMinor) : (topUpAccount s input doc accountId).Keeps history := by
  intro v hv
  unfold topUpAccount
  refine wp_bind.mpr (wp_lockStoredValueAccount hv fun v' h hv' hrow => ?_)
  refine wp_bind.mpr (wp_priorStoredValueEntry fun prior => ?_)
  cases prior with
  | some _ => exact hv'
  | none =>
    simp only [wp_bind, wp_check]
    intro movement hmovement
    refine wp_applyMovement hv' hrow
      (topUp_moves hamount (hv' accountId h hrow).1.nonneg hmovement)
      (fun v'' hv'' _ _ => hv'') fun v'' other _ _ _ _ hfresh => ?_
    exact absurd rfl (refuseIf_eq_ok.mp hfresh)

theorem keeps_mintAccount (input : DocumentLoadInput) (doc : DocumentFxContext)
    (hamount : 0 < input.amountMinor) : (mintAccount s input doc).Keeps history := by
  intro v hv
  unfold mintAccount
  rw [wp_bind, wp_check]
  intro minting hminting
  have hmints := mint_mints hamount hminting
  rw [wp_bind]
  intro accountId _
  simp only [wp_pure, wp_bind]
  refine wp_append_first hmints hv (fun v' hv' => hv') fun v' other hsure => ?_
  refine absurd ?_ (Bool.eq_false_iff.mp hsure)
  simp only [Surroundings.mint, bind_eq_ok, pure_eq_ok] at hminting
  obtain ⟨_, _, _, _, _, _, _, _, _, _, _, _, _, _, _, _, _, _, rfl⟩ := hminting
  rfl

theorem keeps_attachDocumentLoad (input : DocumentLoadInput) :
    (attachDocumentLoad s input).Keeps history := by
  intro v hv
  unfold attachDocumentLoad
  simp only [wp_bind, wp_check, wp_select]
  intro _ _ _ hload replayed
  simp only [assertLoad, bind_eq_ok, refuseIf_eq_ok, not_le] at hload
  obtain ⟨_, hamount, _⟩ := hload
  cases replayed with
  | some _ => exact hv
  | none =>
    rw [wp_bind, wp_check]
    intro doc _
    cases input.accountId with
    | some accountId => exact keeps_topUpAccount s input doc accountId hamount v hv
    | none => exact keeps_mintAccount s input doc hamount v hv

theorem keeps_redeemStoredValue (input : RedeemInput) :
    (redeemStoredValue s input).Keeps history := by
  intro v hv
  unfold redeemStoredValue
  simp only [wp_bind, wp_check]
  intro _ _ _ _
  refine wp_lockStoredValueAccount hv fun v' h hv' hrow => ?_
  refine wp_priorStoredValueEntry fun prior => ?_
  cases prior with
  | some _ => exact hv'
  | none =>
    simp only [wp_bind, wp_check]
    intro _ hredemption
    refine wp_accountFunctionalTotal fun functionalPrior pricing _ => ?_
    refine wp_applyMovement hv' hrow (redemption_moves pricing hredemption)
      (fun v'' hv'' _ _ => ?_) fun v'' other _ _ _ _ hfresh => ?_
    · cases pricing.realized with
      | none => exact hv''
      | some realized =>
        simp only [wp_bind, wp_check]
        exact fun _ _ => hv''
    · exact absurd rfl (refuseIf_eq_ok.mp hfresh)

theorem keeps_adjustStoredValue (input : AdjustInput) :
    (adjustStoredValue s input).Keeps history := by
  intro v hv
  unfold adjustStoredValue
  simp only [wp_bind, wp_check]
  intro _ _ _ _
  refine wp_lockStoredValueAccount hv fun v' h hv' hrow => ?_
  refine wp_priorStoredValueEntry fun prior => ?_
  cases prior with
  | some _ => exact wp_check.mpr fun _ _ => hv'
  | none =>
    simp only [wp_bind, wp_check]
    intro movement hmovement
    refine wp_applyMovement hv' hrow (adjustment_moves hmovement) (fun v'' hv'' _ _ => hv'')
      fun v'' other _ _ _ _ hfresh => ?_
    exact absurd rfl (refuseIf_eq_ok.mp hfresh)

/-! ### Status -/

theorem AccountInOrder.transition {newStatus : StoredValueStatus}
    (h : AccountInOrder account entries) (hallowed : assertTransition newStatus account = .ok ()) :
    AccountInOrder { account with status := newStatus } entries ∧
      (account.status.ended → newStatus.ended) := by
  simp only [assertTransition, bind_eq_ok, refuseIf_eq_ok, not_not, not_and] at hallowed
  obtain ⟨_, htransition, hzero⟩ := hallowed
  have hlive : ¬account.status.ended := by
    intro hended
    cases hstatus : account.status with
    | active | frozen => rwa [hstatus] at hended
    | closed | expired => simp [hstatus, STATUS_TRANSITIONS] at htransition
  have hclosed : newStatus.ended → newStatus = .closed := by
    intro hended
    cases newStatus with
    | active | frozen => exact hended.elim
    | closed => rfl
    | expired =>
      cases hstatus : account.status <;> simp [hstatus, STATUS_TRANSITIONS] at htransition
  refine ⟨⟨h.nonneg, h.sum, h.latest, fun hended => hzero (hclosed hended), ?_⟩,
    fun hended => absurd hended hlive⟩
  exact fun e he key hkey => absurd (h.expired e he key hkey) hlive

theorem keeps_setStoredValueStatus (input : StatusInput) :
    (setStoredValueStatus s input).Keeps history := by
  intro v hv
  unfold setStoredValueStatus
  simp only [wp_bind, wp_check]
  intro _ _
  refine wp_lockStoredValueAccount hv fun v' h hv' hrow _ htransition => ?_
  obtain ⟨hconsistent, hallowed⟩ := hv' _ h hrow
  obtain ⟨hnew, hended⟩ := AccountInOrder.transition hconsistent htransition
  refine ⟨h, hrow, fun _ _ _ => ?_, fun _ _ hupdated => absurd rfl (refuseIf_eq_ok.mp hupdated)⟩
  exact hv'.put hnew fun r hr hr' => hended (hallowed r hr hr')

/-! ### Breakage and expiry -/

/-- An account that is active has no entry of an expiry, so none is found in the place of its
own. -/
theorem keeps_expireStoredValueAccount (accountId : ℕ) (allowedSubsidiaryIds : SubsidiaryScope)
    (postingDate : CivilDate) :
    (expireStoredValueAccount s accountId allowedSubsidiaryIds postingDate accountId).Keeps
      history := by
  intro v hv
  unfold expireStoredValueAccount
  simp only [wp_bind, wp_check]
  intro _ _
  refine wp_lockStoredValueAccount hv fun v' h hv' hrow => ?_
  split_ifs with hended
  · simp only [wp_bind, wp_check, wp_select]
    exact fun _ _ _ => hv'
  · simp only [wp_bind, wp_check]
    intro _ hexpiry
    refine wp_accountFunctionalTotal fun functionalPrior movement hmovement => ?_
    refine wp_applyMovement hv' hrow (expiry_moves hmovement) (fun v'' hv'' => hv'')
      fun v'' other hkey hformed hmem => ?_
    -- an entry under the key would be one of the account, and would have ended it
    obtain ⟨_, rfl⟩ := expiry_eq hmovement
    have hother := hmem (hformed accountId hkey)
    simp only [Surroundings.assertExpiry, bind_eq_ok, refuseIf_eq_ok, not_not] at hexpiry
    have hlive := (hv' accountId h hrow).1.expired other hother accountId hkey
    rw [hexpiry.choose_spec.1] at hlive
    exact hlive.elim

theorem keeps_recognizeProportional {period : String} (hv : history.Settled v)
    (hrow : v accountId = some h) (hactive : h.row.status = .active) :
    (recognizeProportional s accountId h.row postingDate period).wp history v
      fun v' _ => history.Settled v' := by
  unfold recognizeProportional
  simp only [wp_bind, wp_check, wp_selectWhere]
  intro program _ entries _ _
  split_ifs
  · exact hv
  · rw [wp_bind]
    refine wp_priorStoredValueEntry fun prior => ?_
    cases prior with
    | some _ => exact hv
    | none =>
      simp only [wp_bind, wp_check]
      refine wp_accountFunctionalTotal fun functionalPrior movement hmovement => ?_
      refine wp_applyMovement hv hrow (proportionalBreakage_moves hactive hmovement)
        (fun v' hv' _ _ => hv') fun v' other _ _ _ _ hrecorded => ?_
      exact absurd rfl (refuseIf_eq_ok.mp hrecorded)

theorem keeps_recognizeRemote (hv : history.Settled v) (hrow : v accountId = some h) :
    (recognizeRemote s accountId h.row postingDate).wp history v
      fun v' _ => history.Settled v' := by
  unfold recognizeRemote
  simp only [wp_bind, wp_check]
  intro program _ _ _
  split_ifs
  · exact hv
  · simp only [wp_bind, wp_check]
    refine wp_priorStoredValueEntry fun prior _ _ => ?_
    refine wp_accountFunctionalTotal fun functionalPrior movement hmovement => ?_
    refine wp_applyMovement hv hrow (remoteBreakage_moves hmovement) (fun v' hv' _ _ => hv')
      fun v' other _ _ _ _ hrecorded => ?_
    exact absurd rfl (refuseIf_eq_ok.mp hrecorded)

theorem keeps_breakRemote (accountId : ℕ) : (breakRemote s accountId).Keeps history := by
  intro v hv
  unfold breakRemote
  rw [wp_bind]
  refine wp_lockStoredValueAccount hv fun v' h hv' hrow => ?_
  split_ifs
  · rw [wp_bind, wp_check]
    intro program _
    split_ifs
    · rw [wp_bind, wp_check]
      intro cutoff _
      split_ifs
      · exact keeps_recognizeRemote s hv' hrow
      · exact hv'
    · exact hv'
  · exact hv'

theorem keeps_breakProportional (accountId : ℕ) :
    (breakProportional s accountId).Keeps history := by
  intro v hv
  unfold breakProportional
  rw [wp_bind]
  refine wp_lockStoredValueAccount hv fun v' h hv' hrow => ?_
  split_ifs with hbreakable
  · rw [wp_bind, wp_check]
    intro program _
    split_ifs
    · exact keeps_recognizeProportional s hv' hrow (of_decide_eq_true hbreakable).1
    · exact hv'
  · exact hv'

theorem keeps_processOrgBreakage : (processOrgBreakage s).Keeps history := by
  unfold processOrgBreakage
  refine Keeps.bind (fun v hv => wp_check.mpr fun _ _ => hv) fun _ => ?_
  refine Keeps.bind (fun v hv _ => hv) fun expired => ?_
  refine Keeps.bind (.forM fun accountId _ =>
    keeps_expireStoredValueAccount s accountId none s.businessToday) fun _ => ?_
  refine Keeps.bind (fun v hv _ => hv) fun remote => ?_
  refine Keeps.bind (.forM fun accountId _ => keeps_breakRemote s accountId) fun _ => ?_
  refine Keeps.bind (fun v hv _ => hv) fun proportional => ?_
  exact .forM fun accountId _ => keeps_breakProportional s accountId

/-! ### Voids -/

/-- What a void has gathered of an account: the entries to come, and the balance after them. -/
structure Gathered (accountId : ℕ) (account : StoredValueAccountRow) (plan : VoidPlan) : Prop where
  row : ∀ e ∈ plan.pending, e.accountId = accountId
  key : ∀ e ∈ plan.pending, ∀ key, e.idempotencyKey ≠ .expire key
  balance : plan.balance = account.balanceMinor + (plan.pending.map (·.amountMinor)).sum
  latest : plan.pending ≠ [] →
    plan.pending.getLast?.map (·.balanceAfter) = some plan.balance
  nonneg : 0 ≤ plan.balance
  ended : account.status.ended → plan.balance = 0

theorem Gathered.start (h : AccountInOrder account entries) :
    Gathered accountId account ⟨account.balanceMinor, account.issuedMinor, []⟩ where
  row := by simp
  key := by simp
  balance := by simp
  latest := fun hne => absurd rfl hne
  nonneg := h.nonneg
  ended := h.ended

variable {input : VoidInput}

/-- **What a void takes back keeps its plan.** An account that has ended takes nothing back. -/
theorem Gathered.takeBack {plan plan' : VoidPlan} {effect : StoredValueEntry}
    (h : Gathered accountId account plan)
    (hplan : input.takeBack accountId account plan effect = .ok plan') :
    Gathered accountId account plan' := by
  simp only [VoidInput.takeBack, bind_eq_ok, refuseIf_eq_ok, pure_eq_ok, not_and, not_lt, not_or]
    at hplan
  obtain ⟨_, hended, _, hnonneg, rfl⟩ := hplan
  refine
    { row := fun e he => ?_
      key := fun e he => ?_
      balance := ?_
      latest := fun _ => ?_
      nonneg := hnonneg
      ended := fun hstatus => ?_ }
  · rcases mem_append.mp he with he | he
    · exact h.row e he
    · obtain rfl := mem_singleton.mp he
      rfl
  · rcases mem_append.mp he with he | he
    · exact h.key e he
    · obtain rfl := mem_singleton.mp he
      exact fun key hkey => by cases hkey
  · rw [map_append, sum_append, ← add_assoc, ← h.balance]
    simp [VoidInput.reversal]
  · rw [getLast?_append, getLast?_singleton, some_or, map_some]
    rfl
  · have hzero := h.ended hstatus
    have hout : -effect.amountMinor ≤ 0 := by
      by_contra hin
      have hlive := hended (not_le.mp hin)
      cases hs : account.status with
      | active | frozen => rwa [hs] at hstatus
      | closed => exact hlive.2 hs
      | expired => exact hlive.1 hs
    dsimp only
    linarith

theorem wp_gatherReversals {effects : List StoredValueEntry} (h : AccountInOrder account entries) :
    (gatherReversals input accountId account effects).wp history v
      fun v' plan => v' = v ∧ Gathered accountId account plan := by
  unfold gatherReversals
  refine wp_foldlM (fun plan effect hplan => ?_) effects (.start h)
  refine wp_bind.mpr (wp_priorStoredValueEntry fun prior => ?_)
  cases prior with
  | some _ => exact ⟨rfl, hplan⟩
  | none => exact wp_check.mpr fun plan' hplan' => ⟨rfl, hplan.takeBack hplan'⟩

theorem wp_recordReversals {pending : List StoredValueEntry} {Q : AccountHoldings → Unit → Prop}
    (hrow : ∀ e ∈ pending, e.accountId = accountId)
    (hkey : ∀ e ∈ pending, ∀ key, e.idempotencyKey ≠ .expire key)
    (hQ : Q (v.put accountId { h with entries := h.entries ++ pending }) ()) :
    (pending.forM (recordReversal input account)).wp history (v.put accountId h) Q := by
  induction pending generalizing h with
  | nil =>
    rw [append_nil] at hQ
    exact hQ
  | cons entry pending ih =>
    have hentry := hrow entry mem_cons_self
    refine wp_bind.mpr (wp_bind.mpr ?_)
    refine ⟨fun key hexpire => absurd hexpire (hkey entry mem_cons_self key), h, ?_, ?_, ?_⟩
    · change v.put accountId h entry.accountId = some h
      rw [hentry, Holdings.put_self]
    · change wp history _ ((v.put accountId h).put entry.accountId _) _
      rw [hentry, Holdings.put_put]
      refine wp_pure.mpr (wp_check.mpr fun _ _ => ih
        (fun e he => hrow e (mem_cons_of_mem _ he))
        (fun e he => hkey e (mem_cons_of_mem _ he)) ?_)
      simpa using hQ
    · intro other _ _ _ _
      exact wp_pure.mpr (wp_check.mpr fun _ hnew => absurd rfl (refuseIf_eq_ok.mp hnew))

/-- **A void keeps an account in order.** -/
theorem Gathered.inOrder (input : VoidInput) {plan : VoidPlan}
    (h : Gathered accountId account plan) (haccount : AccountInOrder account entries)
    (hpending : plan.pending ≠ []) :
    AccountInOrder (input.write account plan account) (entries ++ plan.pending) ∧
      (account.status.ended → (input.write account plan account).status.ended) := by
  have hstatus : account.status.ended → (input.write account plan account).status.ended := by
    intro hended
    simp only [VoidInput.write]
    split_ifs
    · trivial
    · exact hended
  refine ⟨⟨h.nonneg, ?_, ?_, fun hended => ?_, ?_⟩, hstatus⟩
  · rw [map_append, sum_append, ← haccount.sum]
    exact h.balance
  · have hlatest := h.latest hpending
    obtain ⟨last, hlast⟩ := isSome_iff_exists.mp (getLast?_isSome.mpr hpending)
    rw [hlast] at hlatest
    rw [getLast?_append, hlast]
    exact hlatest
  · simp only [VoidInput.write] at hended
    split_ifs at hended with hcloses
    · simp only [VoidInput.closes, Bool.and_eq_true, decide_eq_true_eq] at hcloses
      exact hcloses.1.2
    · exact h.ended hended
  · intro e he key hkey
    rcases mem_append.mp he with he | he
    · exact hstatus (haccount.expired e he key hkey)
    · exact absurd hkey (h.key e he key)

theorem keeps_reverseAccount (input : VoidInput) (accountId : ℕ) (effects : List StoredValueEntry) :
    (reverseAccount input accountId effects).Keeps history := by
  intro v hv
  unfold reverseAccount
  rw [wp_bind]
  refine wp_lockStoredValueAccount hv fun v' h hv' hrow => ?_
  obtain ⟨hconsistent, hallowed⟩ := hv' accountId h hrow
  rw [wp_bind]
  refine wp_mono _ ?_ (wp_gatherReversals hconsistent)
  rintro v'' plan ⟨rfl, hplan⟩
  split_ifs with hpending
  · exact hv'
  · obtain ⟨hnew, hended⟩ := hplan.inOrder input hconsistent hpending
    rw [wp_bind]
    refine ⟨h, hrow, fun _ => ?_, fun _ => ?_⟩
    · simp only [wp_bind, wp_pure, wp_check]
      intro _ _
      refine wp_recordReversals hplan.row hplan.key ?_
      exact hv'.put hnew fun r hr hr' => hended (hallowed r hr hr')
    · simp only [wp_bind, wp_pure, wp_check]
      exact fun _ hupdated => absurd trivial (refuseIf_eq_ok.mp hupdated)

theorem keeps_reverseStoredValueForVoidedDocument (input : VoidInput) :
    (reverseStoredValueForVoidedDocument input).Keeps history := by
  unfold reverseStoredValueForVoidedDocument
  refine Keeps.bind (fun v hv _ => hv) fun effects => ?_
  exact .forM fun group _ => keeps_reverseAccount input group.1 group.2

/-- **Every operation keeps its rules.** -/
theorem keeps_transaction (operation : Operation) : operation.transaction.Keeps history := by
  cases operation with
  | issueStoredValue s input => exact keeps_issueStoredValue s input
  | attachDocumentIssue s input => exact keeps_attachDocumentIssue s input
  | attachDocumentLoad s input => exact keeps_attachDocumentLoad s input
  | redeemStoredValue s input => exact keeps_redeemStoredValue s input
  | adjustStoredValue s input => exact keeps_adjustStoredValue s input
  | setStoredValueStatus s input => exact keeps_setStoredValueStatus s input
  | runStoredValueBreakage s => exact keeps_processOrgBreakage s
  | reverseStoredValueForVoidedDocument input =>
    exact keeps_reverseStoredValueForVoidedDocument input

/-! ### A balance is its history -/

/-- The stored-value tables with the operations under way. -/
abbrev StoredValueSystem := System StoredValueAccountRow StoredValueEntry EntryKey StoredValueError

/-- What is committed: every balance is its history, and no key is there twice. -/
structure BalanceIsHistory (s : StoredValueSystem) : Prop where
  nonneg : ∀ accountId account, s.store.rows accountId = some account → 0 ≤ account.balanceMinor
  sum : ∀ accountId account, s.store.rows accountId = some account → account.balanceMinor =
    ((entriesOf s.store.entries accountId).map (·.amountMinor)).sum
  latest : ∀ accountId account, s.store.rows accountId = some account →
    (entriesOf s.store.entries accountId).getLast?.map (·.balanceAfter) = some account.balanceMinor
  ended : ∀ accountId account, s.store.rows accountId = some account → account.status.ended →
    account.balanceMinor = 0
  keys : (s.store.entries.map (·.idempotencyKey)).Nodup

/-- Accounts that have ended are not used again. -/
def EndedForGood (s s' : StoredValueSystem) : Prop :=
  ∀ accountId account, s.store.rows accountId = some account → account.status.ended →
    ∃ account', s'.store.rows accountId = some account' ∧ account'.status.ended

/-- No load that mints its account finds an entry of another request in the place of its own. -/
def noLoadForestalled (s : StoredValueSystem) (event : Transactions.Event Operation) : Bool :=
  s.unforestalled history event

theorem endedForGood_of_reached {s s' : StoredValueSystem} (hs : InOrder history s)
    (h : Runs.ReachedBy (fun s event => noLoadForestalled s event = true)
      (System.step Operation.transaction) s s') : InOrder history s' ∧ EndedForGood s s' := by
  induction h with
  | start => exact ⟨hs, fun accountId account hrow hended => ⟨account, hrow, hended⟩⟩
  | step _ hcondition hstep ih =>
    obtain ⟨horder, hearlier⟩ := ih
    refine ⟨horder.step keeps_transaction hcondition hstep, fun accountId account hrow hended => ?_⟩
    obtain ⟨between, hbetween, hended'⟩ := hearlier accountId account hrow hended
    obtain ⟨account', hrow', hallowed⟩ := horder.allowed hstep hbetween
    exact ⟨account', hrow', hallowed hended'⟩

/-- **A balance is its history.** Whatever operations run beside one another, however often they are
retried or broken off: as long as no load that mints its account is forestalled, every committed
balance is not negative, is the sum of its entries and what the latest left, accounts that have
ended hold nothing and are not used again, and no key is there twice. -/
theorem balance_is_history {s : StoredValueSystem}
    (h : Runs.ReachedBy (fun s event => noLoadForestalled s event = true)
      (System.step Operation.transaction) System.empty s) :
    BalanceIsHistory s ∧
      ∀ s', Runs.ReachedBy (fun s event => noLoadForestalled s event = true)
        (System.step Operation.transaction) s s' → EndedForGood s s' := by
  have horder : InOrder history s := .of_reached keeps_transaction h
  refine ⟨⟨fun accountId account hrow => (horder.consistent accountId account hrow).nonneg,
    fun accountId account hrow => (horder.consistent accountId account hrow).sum,
    fun accountId account hrow => (horder.consistent accountId account hrow).latest,
    fun accountId account hrow => (horder.consistent accountId account hrow).ended,
    horder.keys⟩, fun s' h' => (endedForGood_of_reached horder h').2⟩

/-! ### A refund to store credit -/

def refundDay : CivilDate := civilDay 2024 3 1

/-- An organization with one program of store credit. -/
def refundSurroundings : Surroundings where
  featureOn := true
  businessToday := refundDay
  currentDate := refundDay
  program := fun _ => some
    { id := 0
      name := "Store credit"
      kind := .storeCredit
      liabilityAccountId := none
      breakageIncomeAccountId := none
      breakagePolicy := .none
      breakageRate := 0
      expiryMonths := none
      inactivityMonths := 24
      currency := none
      isActive := true }
  document := fun documentId => .ok ⟨documentId, "USD", RATE_SCALE, 0, "Main", refundDay⟩
  documentParty := fun _ => some (some 7)
  partySubsidiary := fun _ => some none
  rootSubsidiary := some 0
  subsidiaryName := fun _ => some "Main"
  baseCurrency := fun _ => some "USD"
  spotRate := fun _ _ _ => some RATE_SCALE
  accountType := fun _ => some "liability_payable"
  storedValueLiability := some 2
  fxRealizedGainLoss := none
  postingContext := fun _ _ => some (0, "USD")
  postEntry := .ok 5
  issueJournal := fun _ => none
  codeLast4 := "ABCD"

/-- A load of a hundred that mints its account. -/
def refundLoad : Operation :=
  .attachDocumentLoad refundSurroundings
    { allowedSubsidiaryIds := none
      programId := some 0
      customerPartyId := some 7
      amountMinor := 100
      currency := "USD"
      documentId := 3
      journalEntryId := 4
      idempotencyKey := "refund" }

/-- One load, and its retry. -/
theorem balance_is_history_refund : ∃ s : StoredValueSystem,
    (s.store.rows 0).map (·.balanceMinor) = some 100 ∧ BalanceIsHistory s ∧
      ∀ s', Runs.ReachedBy (fun s event => noLoadForestalled s event = true)
        (System.step Operation.transaction) s s' → EndedForGood s s' := by
  have hrun : (Runs.runBy noLoadForestalled (System.step Operation.transaction) System.empty
      [.start refundLoad, .run 0, .run 0, .run 0, .run 0, .start refundLoad, .run 1, .run 1]).map
        (fun s => (s.store.rows 0).map (·.balanceMinor)) = some (some 100) := by
    decide +kernel
  obtain ⟨s, hs, hrow⟩ := map_eq_some_iff.mp hrun
  exact ⟨s, hrow, balance_is_history (.of_runBy .start hs)⟩

/-- Two loads under one key: both look before either has recorded its entry, and the one that comes
second keeps the account that it minted, with a hundred on it and no entry. -/
theorem forestalled_load_has_no_entry :
    ∃ s : StoredValueSystem, Runs.Reached (System.step Operation.transaction) System.empty
      [.start refundLoad, .start refundLoad, .run 0, .run 1, .run 0, .run 0, .run 0, .run 1, .run 1,
        .run 1] s ∧
      (s.store.rows 1).map (·.balanceMinor) = some 100 ∧ entriesOf s.store.entries 1 = [] ∧
      ¬BalanceIsHistory s := by
  have hrun : (Runs.run (System.step Operation.transaction) System.empty
      [.start refundLoad, .start refundLoad, .run 0, .run 1, .run 0, .run 0, .run 0, .run 1, .run 1,
        .run 1]).map (fun s => ((s.store.rows 1).map (·.balanceMinor),
          (entriesOf s.store.entries 1).length)) = .ok (some 100, 0) := by
    decide +kernel
  obtain ⟨s, hs, hfacts⟩ := map_eq_ok.mp hrun
  obtain ⟨hrow, hlength⟩ := Prod.mk.inj hfacts
  have hnone := length_eq_zero_iff.mp hlength
  refine ⟨s, .of_run hs, hrow, hnone, fun h => ?_⟩
  obtain ⟨account, haccount, hbalance⟩ := map_eq_some_iff.mp hrow
  have hsum := h.sum 1 account haccount
  rw [hnone, hbalance] at hsum
  cases hsum

/-! ### What is committed stays -/

/-- **A history is only ever added to**, as long as no load is forestalled. From any state that is
reached so, and on from it so, whatever runs beside whatever: the entries that are committed stay as
they are, an entry that is found under a key is found under it from then on, and an account's
balance moves by the entries that come later. -/
theorem history_is_kept {s s' : StoredValueSystem}
    (h : Runs.ReachedBy (fun s event => noLoadForestalled s event = true)
      (System.step Operation.transaction) System.empty s)
    (h' : Runs.ReachedBy (fun s event => noLoadForestalled s event = true)
      (System.step Operation.transaction) s s') :
    ∃ later, s'.store.entries = s.store.entries ++ later ∧
      (∀ key entry, s.store.entries.find? (·.idempotencyKey = key) = some entry →
        s'.store.entries.find? (·.idempotencyKey = key) = some entry) ∧
      ∀ accountId account account', s.store.rows accountId = some account →
        s'.store.rows accountId = some account' → account'.balanceMinor =
          account.balanceMinor + ((entriesOf later accountId).map (·.amountMinor)).sum := by
  have horder : InOrder history s := .of_reached keeps_transaction h
  have horder' := (endedForGood_of_reached horder h').1
  obtain ⟨later, hlater⟩ := entries_of_reached h'
  refine ⟨later, hlater.symm, fun key entry hentry => ?_, ?_⟩
  · rw [← hlater, find?_append, hentry, some_or]
  · rintro accountId account account' hrow hrow'
    rw [(horder'.consistent accountId account' hrow').sum,
      (horder.consistent accountId account hrow).sum, ← hlater, entriesOf_append, map_append,
      sum_append]

/-- One load, and its retry finds it. -/
theorem history_is_kept_refund : ∃ s s' : StoredValueSystem, ∃ later,
    s'.store.entries = s.store.entries ++ later ∧ later.length = 1 ∧
      ∀ key entry, s.store.entries.find? (·.idempotencyKey = key) = some entry →
        s'.store.entries.find? (·.idempotencyKey = key) = some entry := by
  have hrun : (Runs.runBy noLoadForestalled (System.step Operation.transaction) System.empty
      [.start refundLoad, .run 0, .run 0, .run 0, .run 0]).map
        (fun s => s.store.entries.length) = some 1 := by
    decide +kernel
  obtain ⟨s, hs, hlength⟩ := map_eq_some_iff.mp hrun
  obtain ⟨later, hlater, hkeys, -⟩ := history_is_kept .start (.of_runBy .start hs)
  refine ⟨System.empty, s, later, hlater, ?_, hkeys⟩
  rw [← hlength, hlater]
  rfl

end OpenBooks.StoredValue
