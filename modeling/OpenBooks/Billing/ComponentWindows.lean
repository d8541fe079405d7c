import OpenBooks.Billing.Contract
import OpenBooks.Money.DecimalRefusal
import OpenBooks.Lib.Runs
import OpenBooks.Lib.Windows
import Mathlib.Data.List.Pairwise

/-!
# The components of a contract

What a contract charges is its *components*, each in force over a window of days that is inclusive
on both ends. An amendment never rewrites a window that has passed: it closes the window in force
the day before it takes effect, and opens another on the day.

Amendments may be recorded in any order of their dates, and there are three ways of opening a
window. An added component begins after every window of its key has ended. A changed one begins
inside a window, and keeps its end. A change of plan begins after every window there is, and is
refused while one is scheduled. Each of them leaves the windows of a key apart
(`ContractComponents.Sound.amendComponents`), so that a component is in force once at most.
-/

namespace OpenBooks.ContractComponents

open Checked Windows List

/-! ### Rows -/

/-- A component of a contract, and the days it is in force. -/
structure ContractComponent where
  componentKey : String
  name : String
  description : Option String
  quantity : ℤ
  unitPrice : ℤ
  incomeAccountId : Option String
  itemId : Option String
  taxCodeId : Option String
  effectiveFrom : CivilDate
  effectiveTo : Option CivilDate
  sortOrder : ℕ
  deriving DecidableEq

/-- The days a component is in force. -/
def ContractComponent.window (c : ContractComponent) : Window CivilDate :=
  ⟨c.effectiveFrom, c.effectiveTo⟩

structure VersionComponent where
  componentKey : String
  name : String
  description : Option String := none
  quantity : ℤ
  unitPrice : ℤ
  incomeAccountId : Option String := none
  itemId : Option String := none
  taxCodeId : Option String := none
  isOptional : Bool := false
  sortOrder : ℕ := 0

/-- The components of a version: a key is there once. -/
structure VersionComponents where
  rows : List VersionComponent
  keys_distinct : (rows.map VersionComponent.componentKey).Nodup

/-- A component of the version, opened on a day. -/
def VersionComponent.openOn (c : VersionComponent) (day : CivilDate) : ContractComponent where
  componentKey := c.componentKey
  name := c.name
  description := c.description
  quantity := c.quantity
  unitPrice := c.unitPrice
  incomeAccountId := c.incomeAccountId
  itemId := c.itemId
  taxCodeId := c.taxCodeId
  effectiveFrom := day
  effectiveTo := none
  sortOrder := c.sortOrder

/-! ### Requests -/

/-- The fields of a request about a component. An absent field keeps what is stored; where null
can be asked for, it is the inner none. -/
structure ComponentFields where
  componentKey : Option String := none
  name : Option String := none
  description : Option (Option String) := none
  quantity : Option ℤ := none
  unitPrice : Option ℤ := none
  incomeAccountId : Option (Option String) := none
  itemId : Option (Option String) := none
  taxCodeId : Option (Option String) := none

inductive ComponentChange
  | add (fields : ComponentFields)
  | change (fields : ComponentFields)
  | remove (componentKey : Option String)
  | changePlan (target : PlanVersion) (components : VersionComponents)

structure ComponentRequest where
  change : ComponentChange
  effectiveOn : CivilDate
  idempotencyKey : String
  /-- The text of the request, by which a replay is compared. -/
  details : String

/-- The request as the ledger of the contract keeps it. -/
def ComponentRequest.recorded (request : ComponentRequest) : AmendmentRequest where
  change := match request.change with
    | .changePlan target components => .changePlan { target with
        requiredComponents := (components.rows.filter fun c => !c.isOptional).length }
    | _ => .component
  effectiveOn := request.effectiveOn
  idempotencyKey := request.idempotencyKey
  details := request.details
  dueOn := none

/-- The check of the accounts, items and tax codes that a request names, given the item that is
stored: the refusal, if there is one. -/
abbrev CommercialRefs := ComponentFields → Option String → Option String

def assertCommercialRefs (refs : CommercialRefs) (fields : ComponentFields)
    (storedItemId : Option String) : Except String Unit :=
  match refs fields storedItemId with
  | some refusal => .error refusal
  | none => .ok ()

/-! ### Amending -/

def exactMoney (amount : ℤ) (label : String) : Except String ℤ := do
  refuseIf (10 ^ 19 ≤ |amount|)
    (label ++ " is out of range — at most 15 whole digits fit the ledger")
  return amount

def positiveMoney (amount : ℤ) (label : String) : Except String ℤ := do
  let exact ← exactMoney amount label
  refuseIf (exact ≤ 0) (label ++ " must be greater than zero")
  return exact

def nonNegativeMoney (amount : ℤ) (label : String) : Except String ℤ := do
  let exact ← exactMoney amount label
  refuseIf (exact < 0) (label ++ " cannot be negative")
  return exact

/-- The components as a snapshot lists them: by first day, then by their order, then by key. -/
def snapshotOrder (components : List ContractComponent) : List ContractComponent :=
  components.insertionSort fun a b => a.effectiveFrom < b.effectiveFrom ∨
    (a.effectiveFrom = b.effectiveFrom ∧ (a.sortOrder < b.sortOrder ∨
      (a.sortOrder = b.sortOrder ∧ a.componentKey ≤ b.componentKey)))

/-- The component of a key in force on a day. -/
def currentComponent (components : List ContractComponent) (componentKey : Option String)
    (effectiveOn : CivilDate) : Option ContractComponent :=
  match componentKey with
  | none => none
  | some key =>
    if key = "" then none
    else (snapshotOrder components).find? fun c =>
      c.componentKey = key && c.window.Holds effectiveOn

/-- Close a window the day before one of its days. Only windows that began before that day are
closed, so there is a day before. -/
def ContractComponent.closeBefore (effectiveOn : CivilDate) (c : ContractComponent) :
    ContractComponent :=
  match prevDay effectiveOn with
  | .ok last => { c with effectiveTo := some last }
  | .error _ => c

/-- The SQL update of an amendment: close the windows of its key that hold the day. -/
def closeComponent (components : List ContractComponent) (key : String)
    (effectiveOn : CivilDate) : List ContractComponent :=
  components.map fun c =>
    if c.componentKey = key ∧ c.window.Holds effectiveOn = true then c.closeBefore effectiveOn
    else c

def isBlank (text : Option String) : Bool := (text.elim [] fun t => trim t.toList).isEmpty

/-- A component is added, in force from a day on. -/
def addComponent (refs : CommercialRefs) (components : List ContractComponent)
    (fields : ComponentFields) (effectiveOn : CivilDate) :
    Except String (List ContractComponent) := do
  let quantity ← positiveMoney (fields.quantity.getD 10000) "component quantity"
  let price ← orRefuse fields.unitPrice
    (decimalNullRefusal "component price" "an amount" .undefined 4)
  let unitPrice ← nonNegativeMoney price "component price"
  let componentKey := fields.componentKey.getD ""
  refuseIf (isBlank fields.componentKey ∨ isBlank fields.name)
    "component key and name are required"
  refuseIf (components.any fun c => c.componentKey = componentKey &&
      c.effectiveTo.all (effectiveOn ≤ ·))
    "component key overlaps an existing or scheduled component"
  assertCommercialRefs refs fields none
  return components ++ [{
    componentKey, name := fields.name.getD "", description := fields.description.join
    quantity, unitPrice, incomeAccountId := fields.incomeAccountId.join
    itemId := fields.itemId.join, taxCodeId := fields.taxCodeId.join
    effectiveFrom := effectiveOn, effectiveTo := none, sortOrder := components.length }]

/-- The component that is to be removed or changed: it must have begun before the day. -/
def amendedComponent (components : List ContractComponent) (componentKey : Option String)
    (effectiveOn : CivilDate) : Except String ContractComponent := do
  let current ← orRefuse (currentComponent components componentKey effectiveOn)
    "active component not found"
  refuseIf (current.effectiveFrom = effectiveOn)
    "component changes must take effect after the current component start date"
  return current

/-- A component ends before a day. -/
def removeComponent (components : List ContractComponent) (componentKey : Option String)
    (effectiveOn : CivilDate) : Except String (List ContractComponent) := do
  let current ← amendedComponent components componentKey effectiveOn
  return closeComponent components current.componentKey effectiveOn

/-- A component ends before a day, and its successor begins on it. -/
def changeComponent (refs : CommercialRefs) (components : List ContractComponent)
    (fields : ComponentFields) (effectiveOn : CivilDate) :
    Except String (List ContractComponent) := do
  let current ← amendedComponent components fields.componentKey effectiveOn
  let quantity ← fields.quantity.elim (.ok current.quantity)
    fun quantity => positiveMoney quantity "component quantity"
  let unitPrice ← fields.unitPrice.elim (.ok current.unitPrice)
    fun price => nonNegativeMoney price "component price"
  assertCommercialRefs refs fields current.itemId
  return closeComponent components current.componentKey effectiveOn ++ [{
    componentKey := current.componentKey, name := fields.name.getD current.name
    description := fields.description.getD current.description
    quantity, unitPrice
    incomeAccountId := fields.incomeAccountId.getD current.incomeAccountId
    itemId := fields.itemId.getD current.itemId
    taxCodeId := fields.taxCodeId.getD current.taxCodeId
    effectiveFrom := effectiveOn, effectiveTo := current.effectiveTo
    sortOrder := components.length }]

/-- Close every window that holds the day, and open the required components of the version. -/
def changePlanComponents (components : List ContractComponent) (target : VersionComponents)
    (effectiveOn : CivilDate) : Except String (List ContractComponent) :=
  -- a component that begins on or after the day would be cut, or left empty
  match (snapshotOrder components).find? fun c =>
      effectiveOn ≤ c.effectiveFrom && c.effectiveTo.all (effectiveOn ≤ ·) with
  | some scheduled =>
    .error ("component " ++ scheduled.componentKey ++ " is already scheduled from " ++
      isoText scheduled.effectiveFrom ++ "; remove or change it before moving the contract to " ++
      "another plan on " ++ isoText effectiveOn)
  | none =>
    .ok (components.map (fun c =>
        if c.effectiveFrom < effectiveOn ∧ c.effectiveTo.all (effectiveOn ≤ ·) = true then
          c.closeBefore effectiveOn
        else c) ++
      (target.rows.filter fun c => !c.isOptional).map (·.openOn effectiveOn))

def amendComponents (refs : CommercialRefs) (components : List ContractComponent)
    (effectiveOn : CivilDate) : ComponentChange → Except String (List ContractComponent)
  | .add fields => addComponent refs components fields effectiveOn
  | .change fields => changeComponent refs components fields effectiveOn
  | .remove componentKey => removeComponent components componentKey effectiveOn
  | .changePlan _ target => changePlanComponents components target effectiveOn

/-! ### The contract over time -/

structure Contract where
  subscription : Subscription
  components : List ContractComponent

/-- A contract as activation leaves it: the required components of its version, or those of
them that were chosen, open from the start of the term. -/
def activated (subscription : Subscription) (version : VersionComponents)
    (componentKeys : Option (List String)) (termStartsOn : CivilDate) : Contract where
  subscription := subscription
  components := (version.rows.filter fun c =>
    !c.isOptional && componentKeys.all (c.componentKey ∈ ·)).map (·.openOn termStartsOn)

/-- Whether an amendment is recorded under a key. -/
def isRecorded (subscription : Subscription) (idempotencyKey : String) : Bool :=
  subscription.lifecycle.any fun l =>
    l.amendments.any (·.request.idempotencyKey = idempotencyKey)

/-- Amend the components of a contract. A request that is recorded already changes nothing. -/
def amend (refs : CommercialRefs) (contract : Contract) (request : ComponentRequest) :
    Except String Contract := do
  let subscription ← applyAmendment contract.subscription request.recorded
  if isRecorded contract.subscription request.idempotencyKey then return contract
  else
    let components ←
      amendComponents refs contract.components request.effectiveOn request.change
    return { subscription, components }

/-- An amendment of the components – or anything else that happens to the subscription: bills,
other amendments, a pause. -/
inductive Operation
  | amend (request : ComponentRequest)
  | elsewhere (subscription : Subscription)

def step (refs : CommercialRefs) (contract : Contract) : Operation → Except String Contract
  | .amend request => amend refs contract request
  | .elsewhere subscription => .ok { contract with subscription }

/-! ### Windows that are kept apart -/

/-- What holds of the components of a contract: a window has a day, its last day is not the last
of the calendar, and the windows of a key are apart. -/
structure Sound (components : List ContractComponent) : Prop where
  nonempty : ∀ c ∈ components, ∀ last ∈ c.effectiveTo, c.effectiveFrom ≤ last
  ends : ∀ c ∈ components, ∀ last ∈ c.effectiveTo, ∃ day, last < day
  apart : components.Pairwise fun a b => a.componentKey = b.componentKey → Apart a.window b.window

variable {components components' : List ContractComponent} {effectiveOn : CivilDate}
  {c : ContractComponent}

theorem Sound.eq_or_apart (h : Sound components) {a b : ContractComponent} (ha : a ∈ components)
    (hb : b ∈ components) (hkey : a.componentKey = b.componentKey) :
    a = b ∨ Apart a.window b.window := by
  by_cases hab : a = b
  · exact .inl hab
  · have hsymm : Std.Symm fun a b : ContractComponent =>
        a.componentKey = b.componentKey → Apart a.window b.window :=
      ⟨fun _ _ h hkey => (h hkey.symm).symm⟩
    exact .inr (h.apart.forall ha hb hab hkey)

theorem holds_window_iff {day : CivilDate} : c.window.Holds day = true ↔
    c.effectiveFrom ≤ day ∧ c.effectiveTo.all (day ≤ ·) = true := by
  rw [Window.Holds, Bool.and_eq_true, decide_eq_true_eq]
  rfl

theorem closeBefore_spec (hfrom : c.effectiveFrom < effectiveOn) :
    ∃ last, prevDay effectiveOn = .ok last ∧
      c.closeBefore effectiveOn = { c with effectiveTo := some last } := by
  obtain ⟨last, hlast⟩ := exists_prevDay hfrom
  refine ⟨last, hlast, ?_⟩
  rw [ContractComponent.closeBefore, hlast]

/-- **Closing some of the windows that began before a day and hold it.** They keep their keys and
are cut down, so whatever was apart is apart. -/
theorem Sound.close (h : Sound components) {p : ContractComponent → Prop} [DecidablePred p]
    (hp : ∀ c ∈ components, p c → c.effectiveFrom < effectiveOn ∧
      c.window.Holds effectiveOn = true) :
    Sound (components.map fun c => if p c then c.closeBefore effectiveOn else c) := by
  have hclosed : ∀ c ∈ components, ∃ c' : ContractComponent,
      (if p c then c.closeBefore effectiveOn else c) = c' ∧ c'.componentKey = c.componentKey ∧
        Within c'.window c.window ∧ ∀ last ∈ c'.effectiveTo,
          c'.effectiveFrom ≤ last ∧ ∃ day, last < day := by
    intro c hc
    split_ifs with hpc
    · obtain ⟨hfrom, hholds⟩ := hp c hc hpc
      obtain ⟨last, hlast, hclose⟩ := closeBefore_spec hfrom
      refine ⟨_, rfl, ?_, ?_, ?_⟩
      · rw [hclose]
      · rw [hclose]
        exact within_close hholds (prevDay_lt hlast).le
      · rw [hclose]
        rintro _ ⟨⟩
        exact ⟨(le_prevDay_iff hlast).mpr hfrom, _, prevDay_lt hlast⟩
    · exact ⟨c, rfl, rfl, Within.refl _, fun last hl => ⟨h.nonempty c hc last hl, h.ends c hc last hl⟩⟩
  refine ⟨?_, ?_, ?_⟩
  · simp only [forall_mem_map]
    intro c hc last hl
    obtain ⟨c', hc', -, -, hends⟩ := hclosed c hc
    rw [hc'] at hl ⊢
    exact (hends last hl).1
  · simp only [forall_mem_map]
    intro c hc last hl
    obtain ⟨c', hc', -, -, hends⟩ := hclosed c hc
    rw [hc'] at hl
    exact (hends last hl).2
  · refine pairwise_map.mpr (h.apart.imp_of_mem fun ha hb hab hkey => ?_)
    obtain ⟨a', ha', hkeyA, hwithinA, -⟩ := hclosed _ ha
    obtain ⟨b', hb', hkeyB, hwithinB, -⟩ := hclosed _ hb
    rw [ha', hb'] at hkey ⊢
    exact (hab (hkeyA.symm.trans (hkey.trans hkeyB))).mono hwithinA hwithinB

/-- Windows of new components, apart from those there are. -/
theorem Sound.append {opened : List ContractComponent} (h : Sound components)
    (hopened : Sound opened) (hapart : ∀ a ∈ components, ∀ b ∈ opened,
      a.componentKey = b.componentKey → Apart a.window b.window) :
    Sound (components ++ opened) := by
  refine ⟨fun c hc => ?_, fun c hc => ?_, pairwise_append.mpr ⟨h.apart, hopened.apart, hapart⟩⟩
  · rcases mem_append.mp hc with hc | hc
    · exact h.nonempty c hc
    · exact hopened.nonempty c hc
  · rcases mem_append.mp hc with hc | hc
    · exact h.ends c hc
    · exact hopened.ends c hc

theorem Sound.singleton (hnonempty : ∀ last ∈ c.effectiveTo, c.effectiveFrom ≤ last)
    (hends : ∀ last ∈ c.effectiveTo, ∃ day, last < day) : Sound [c] :=
  ⟨by simpa using hnonempty, by simpa using hends, pairwise_singleton _ _⟩

theorem Sound.opened (version : VersionComponents) (p : VersionComponent → Bool)
    (day : CivilDate) : Sound ((version.rows.filter p).map (·.openOn day)) := by
  refine ⟨?_, ?_, ?_⟩
  · simp only [forall_mem_map]
    rintro c - last ⟨⟩
  · simp only [forall_mem_map]
    rintro c - last ⟨⟩
  · have hkeys := pairwise_map.mp version.keys_distinct
    refine pairwise_map.mpr ((hkeys.filter p).imp fun hne hkey => ?_)
    exact absurd hkey hne

/-! ### What an amendment keeps -/

variable {componentKey : Option String}

theorem currentComponent_spec (h : currentComponent components componentKey effectiveOn = some c) :
    c ∈ components ∧ componentKey = some c.componentKey ∧ c.window.Holds effectiveOn = true := by
  cases componentKey with
  | none => cases h
  | some key =>
    simp only [currentComponent] at h
    split_ifs at h
    have hholds := find?_some h
    rw [Bool.and_eq_true, decide_eq_true_eq] at hholds
    have hmem := mem_of_find?_eq_some h
    exact ⟨(perm_insertionSort _ _).mem_iff.mp hmem, congrArg some hholds.1.symm, hholds.2⟩

theorem amendedComponent_spec (h : amendedComponent components componentKey effectiveOn = .ok c) :
    c ∈ components ∧ c.window.Holds effectiveOn = true ∧ c.effectiveFrom < effectiveOn := by
  simp only [amendedComponent, bind_eq_ok, orRefuse_eq_ok, refuseIf_eq_ok, pure_eq_ok] at h
  obtain ⟨current, hcurrent, -, hne, rfl⟩ := h
  obtain ⟨hmem, -, hholds⟩ := currentComponent_spec hcurrent
  exact ⟨hmem, hholds, lt_of_le_of_ne (holds_window_iff.mp hholds).1 hne⟩

/-- The update of an amendment closes the one window of the key that holds the day. -/
theorem Sound.closeComponent (h : Sound components) (hc : c ∈ components)
    (hholds : c.window.Holds effectiveOn = true) (hfrom : c.effectiveFrom < effectiveOn) :
    Sound (closeComponent components c.componentKey effectiveOn) := by
  refine h.close fun other hother hp => ⟨?_, hp.2⟩
  rcases h.eq_or_apart hother hc hp.1 with rfl | hapart
  · exact hfrom
  · rw [hapart.not_holds hp.2] at hholds
    cases hholds

theorem Sound.addComponent {refs : CommercialRefs} {fields : ComponentFields}
    (h : Sound components)
    (hadd : addComponent refs components fields effectiveOn = .ok components') :
    Sound components' := by
  simp only [ContractComponents.addComponent, bind_eq_ok, refuseIf_eq_ok, orRefuse_eq_ok,
    pure_eq_ok] at hadd
  obtain ⟨quantity, -, price, -, unitPrice, -, -, -, -, hoverlap, -, -, rfl⟩ := hadd
  refine h.append (Sound.singleton (by simp) (by simp)) fun a ha b hb hkey => ?_
  obtain rfl := mem_singleton.mp hb
  rw [Bool.not_eq_true, any_eq_false] at hoverlap
  have hover := hoverlap a ha
  rw [Bool.and_eq_true, decide_eq_true_eq, not_and] at hover
  have hlast := hover hkey
  cases hto : a.effectiveTo with
  | none => simp [hto] at hlast
  | some last =>
    rw [hto, Option.all_some, decide_eq_true_eq, not_le] at hlast
    exact .inl ⟨last, hto, hlast⟩

theorem Sound.removeComponent {componentKey : Option String} (h : Sound components)
    (hremove : removeComponent components componentKey effectiveOn = .ok components') :
    Sound components' := by
  simp only [ContractComponents.removeComponent, bind_eq_ok, pure_eq_ok] at hremove
  obtain ⟨current, hcurrent, rfl⟩ := hremove
  obtain ⟨hmem, hholds, hfrom⟩ := amendedComponent_spec hcurrent
  exact h.closeComponent hmem hholds hfrom

/-- A changed component begins inside the window it closes, and keeps its end: it is apart from
all that the window was apart from. -/
theorem Sound.changeComponent {refs : CommercialRefs} {fields : ComponentFields}
    (h : Sound components)
    (hchange : changeComponent refs components fields effectiveOn = .ok components') :
    Sound components' := by
  simp only [ContractComponents.changeComponent, bind_eq_ok, pure_eq_ok] at hchange
  obtain ⟨current, hcurrent, quantity, -, unitPrice, -, -, -, rfl⟩ := hchange
  obtain ⟨hmem, hholds, hfrom⟩ := amendedComponent_spec hcurrent
  obtain ⟨last, hlast, hclose⟩ := closeBefore_spec hfrom
  refine (h.closeComponent hmem hholds hfrom).append (Sound.singleton ?_ (h.ends current hmem))
    fun a ha b hb hkey => ?_
  · exact fun l hl => (Window.holds_iff.mp hholds).2 l hl
  · obtain rfl := mem_singleton.mp hb
    obtain ⟨before, hbefore, rfl⟩ := mem_map.mp ha
    have henter : Within ⟨effectiveOn, current.effectiveTo⟩ current.window :=
      within_enter hholds
    split_ifs at hkey ⊢ with hp
    · -- the window that is closed ends the day before the new one begins
      rcases h.eq_or_apart hbefore hmem hp.1 with rfl | hapart
      · rw [hclose]
        exact .inl ⟨last, rfl, prevDay_lt hlast⟩
      · rw [hapart.not_holds hp.2] at hholds
        cases hholds
    · rcases h.eq_or_apart hbefore hmem hkey with rfl | hapart
      · exact absurd ⟨rfl, hholds⟩ hp
      · exact hapart.mono (Within.refl _) henter

theorem Sound.changePlanComponents {target : VersionComponents} (h : Sound components)
    (hchange : changePlanComponents components target effectiveOn = .ok components') :
    Sound components' := by
  simp only [ContractComponents.changePlanComponents] at hchange
  split at hchange
  · cases hchange
  next hnone =>
    cases hchange
    have hbefore : ∀ c ∈ components, c.effectiveFrom < effectiveOn := by
      intro c hc
      by_contra hle
      have hscheduled := find?_eq_none.mp hnone c ((perm_insertionSort _ _).mem_iff.mpr hc)
      rw [Bool.and_eq_true, decide_eq_true_eq, not_and] at hscheduled
      refine hscheduled (not_lt.mp hle) ?_
      cases hto : c.effectiveTo with
      | none => rfl
      | some last =>
        rw [Option.all_some, decide_eq_true_eq]
        exact (not_lt.mp hle).trans (h.nonempty c hc last hto)
    refine (h.close fun c hc hp => ⟨hp.1, ?_⟩).append (Sound.opened target _ effectiveOn)
      fun a ha b hb _ => ?_
    · exact holds_window_iff.mpr ⟨hp.1.le, hp.2⟩
    · obtain ⟨c, hc, rfl⟩ := mem_map.mp ha
      obtain ⟨component, -, rfl⟩ := mem_map.mp hb
      split_ifs with hp
      · obtain ⟨last, hlast, hclose⟩ := closeBefore_spec hp.1
        rw [hclose]
        exact .inl ⟨last, rfl, prevDay_lt hlast⟩
      · rw [not_and] at hp
        have hends := hp (hbefore c hc)
        cases hto : c.effectiveTo with
        | none => simp [hto] at hends
        | some last =>
          rw [hto, Option.all_some, decide_eq_true_eq, not_le] at hends
          exact .inl ⟨last, hto, hends⟩

/-- **Every amendment of the components keeps the windows apart.** -/
theorem Sound.amendComponents {refs : CommercialRefs} {change : ComponentChange}
    (h : Sound components)
    (hamend : amendComponents refs components effectiveOn change = .ok components') :
    Sound components' := by
  cases change with
  | add fields => exact h.addComponent hamend
  | change fields => exact h.changeComponent hamend
  | remove key => exact h.removeComponent hamend
  | changePlan _ target => exact h.changePlanComponents hamend

theorem Sound.step {refs : CommercialRefs} {contract contract' : Contract} {operation : Operation}
    (h : Sound contract.components) (hstep : step refs contract operation = .ok contract') :
    Sound contract'.components := by
  cases operation with
  | elsewhere subscription =>
    cases hstep
    exact h
  | amend request =>
    simp only [ContractComponents.step, amend, bind_eq_ok] at hstep
    obtain ⟨subscription, -, hstep⟩ := hstep
    split_ifs at hstep
    · cases hstep
      exact h
    · simp only [bind_eq_ok, pure_eq_ok] at hstep
      obtain ⟨components, hcomponents, rfl⟩ := hstep
      exact h.amendComponents hcomponents

/-- The contracts that amendments reach from activation. -/
def Reachable (refs : CommercialRefs) (contract : Contract) : Prop :=
  ∃ subscription version componentKeys termStartsOn operations,
    Runs.Reached (ContractComponents.step refs)
      (activated subscription version componentKeys termStartsOn) operations contract

/-- **A component is in force once at most**, in every contract that is reached. -/
theorem Reachable.sound {refs : CommercialRefs} {contract : Contract}
    (h : Reachable refs contract) : Sound contract.components := by
  obtain ⟨subscription, version, componentKeys, termStartsOn, operations, hreached⟩ := h
  exact hreached.invariant (P := fun contract => Sound contract.components)
    (Sound.opened version _ termStartsOn) fun _ _ _ hs hstep => hs.step hstep

end OpenBooks.ContractComponents
