import OpenBooks.Networking.Literals

/-!
# What the address check promises

An accepted literal denotes an address that no longest matching range of the
registries refuses, and two spellings of one IPv6 address are answered alike. The
check reads a zone suffix as part of the address, so the promise depends on the
zones that `net.isIP` lets through: a colon in a zone adds groups, a dot makes the
expander give up, and a zone behind the `::` is read as a group of its own.
`Networking.addressCheck_iff` says that these are the only zones in the
way.
-/

namespace OpenBooks.Networking

open List Option

/-! ### The longest matching range -/

/-- No range of greatest prefix length among those that cover the address refuses
it. -/
def LongestMatchAllows (ranges : List AddressRange) (width address : Nat) : Prop :=
  ∀ r ∈ ranges, r.covers width address →
    (∀ r' ∈ ranges, r'.covers width address → r'.bits ≤ r.bits) → r.globallyReachable = true

/-- Ranges of one length and one network are of one mind. -/
def Consistent (ranges : List AddressRange) (width : Nat) : Prop :=
  ∀ r ∈ ranges, ∀ r' ∈ ranges, r.bits = r'.bits →
    (addressValue width r.networkText).map (· >>> (width - r.bits)) =
      (addressValue width r'.networkText).map (· >>> (width - r'.bits)) →
    r.globallyReachable = r'.globallyReachable

theorem ipv4_consistent : Consistent IPV4_SPECIAL_PURPOSE 32 := by
  unfold Consistent
  decide +kernel

theorem ipv6_consistent : Consistent IPV6_SPECIAL_PURPOSE 128 := by
  unfold Consistent
  decide +kernel

theorem AddressRange.covers_iff {r : AddressRange} {width address : Nat} :
    r.covers width address ↔ (addressValue width r.networkText).map (· >>> (width - r.bits)) =
      some (address >>> (width - r.bits)) := by
  unfold covers cidrContains
  cases addressValue width r.networkText with
  | none => simp
  | some n =>
    simp only [beq_iff_eq, map_some, Option.some.injEq]
    exact eq_comm

/-- What the decision says about a read address: the longest matches allow it, and
some range reaches it unless the default does. -/
theorem allows_of_decision {ip : Text} {ranges : List AddressRange} {width a : Nat} {d : Bool}
    (hranges : Consistent ranges width) (ha : addressValue width ip = some a)
    (h : (registeredRangeDecision ip ranges width).getD d = true) :
    LongestMatchAllows ranges width a ∧
      (d = true ∨ ∃ r ∈ ranges, r.globallyReachable = true ∧ r.covers width a) := by
  rw [registeredRangeDecision, ha] at h
  simp only at h
  set le : AddressRange → AddressRange → Bool := fun left right => right.bits ≤ left.bits with hle
  have hmem : ∀ r, r ∈ (ranges.filter (·.covers width a)).mergeSort le ↔
      r ∈ ranges ∧ r.covers width a := fun r => by
    rw [mem_mergeSort, mem_filter]
  have hsorted : ((ranges.filter (·.covers width a)).mergeSort le).Pairwise
      fun left right => le left right = true := pairwise_mergeSort
    (fun _ _ _ h1 h2 => by simp only [hle, decide_eq_true_eq] at *; omega)
    (fun _ _ => by simp only [hle, Bool.or_eq_true, decide_eq_true_eq]; omega)
    (ranges.filter (·.covers width a))
  cases hm : (ranges.filter (·.covers width a)).mergeSort le with
  | nil =>
    rw [hm] at h hmem
    refine ⟨fun r hr hc => ?_, Or.inl (by simpa using h)⟩
    simpa using (hmem r).mpr ⟨hr, hc⟩
  | cons top rest =>
    rw [hm] at h hmem hsorted
    have htop : top.globallyReachable = true := by simpa using h
    obtain ⟨htr, htc⟩ := (hmem top).mp (by simp)
    refine ⟨fun r hr hc hlongest => ?_, Or.inr ⟨top, htr, htop, htc⟩⟩
    have h1 : top.bits ≤ r.bits := hlongest top htr htc
    have h2 : r.bits ≤ top.bits := by
      rcases mem_cons.mp ((hmem r).mpr ⟨hr, hc⟩) with rfl | hrest
      · exact le_refl _
      · simpa [hle] using (pairwise_cons.mp hsorted).1 r hrest
    have hbits : r.bits = top.bits := by omega
    rw [hranges r hr top htr hbits, htop]
    rw [AddressRange.covers_iff.mp hc, AddressRange.covers_iff.mp htc, hbits]

theorem foldl_join {size : Nat} {parts : List Nat} (h : ∀ p ∈ parts, p < 2 ^ size) (v : Nat) :
    parts.foldl (fun value part => value <<< size ||| part) v =
      parts.foldl (fun v p => v * 2 ^ size + p) v := by
  induction parts generalizing v with
  | nil => rfl
  | cons p parts ih =>
    rw [foldl_cons, foldl_cons, ih fun q hq => h q (by simp [hq]),
      ← Nat.shiftLeft_add_eq_or_of_lt (h p (by simp)), Nat.shiftLeft_eq]

theorem ipv4Value_text (q : Quad) : addressValue 32 q.text = some q.address := by
  rw [addressValue, if_pos rfl, ipv4Value, q.parseIpv4_text]
  exact congrArg some (foldl_join (fun o ho => by have := q.bound o ho; omega) 0)

theorem isPublicUnicastIpv4_text {q : Quad} (h : isPublicUnicastIpv4 q.text = true) :
    LongestMatchAllows IPV4_SPECIAL_PURPOSE 32 q.address := by
  rw [isPublicUnicastIpv4, if_neg (by simp [q.parseIpv4_text])] at h
  exact (allows_of_decision ipv4_consistent (ipv4Value_text q) h).1

/-! ### The translation prefix -/

/-- `64:ff9b::/96`, less its last 32 bits. -/
def translationPrefix : Nat := 0x64ff9b <<< 64

theorem reachable_of_covers_translation {a : Nat} (ha : a >>> 32 = translationPrefix) :
    ∀ r ∈ IPV6_SPECIAL_PURPOSE, r.covers 128 a → r.globallyReachable = true := by
  have htable : ∀ r ∈ IPV6_SPECIAL_PURPOSE, r.globallyReachable = true ∨
      (addressValue 128 r.networkText).map (· >>> (128 - min r.bits 96)) ≠
        some (translationPrefix >>> (96 - min r.bits 96)) := by
    decide +kernel
  intro r hr hc
  refine (htable r hr).resolve_right fun hne => hne ?_
  obtain ⟨n, hn, hshift⟩ := map_eq_some_iff.mp (AddressRange.covers_iff.mp hc)
  rw [hn, map_some, ← ha, ← Nat.shiftRight_add]
  rcases Nat.le_total r.bits 96 with hb | hb
  · rw [Nat.min_eq_left hb]
    have : 32 + (96 - r.bits) = 128 - r.bits := by omega
    rw [this, hshift]
  · rw [Nat.min_eq_right hb]
    have h32 : 128 - 96 = (128 - r.bits) + (32 - (128 - r.bits)) := by omega
    have h32' : 32 + (96 - 96) = (128 - r.bits) + (32 - (128 - r.bits)) := by omega
    rw [h32, h32', Nat.shiftRight_add, Nat.shiftRight_add, hshift]

/-! ### The decision on eight groups -/

theorem top_bits {w : Nat} (hw : w ≤ 0xffff) (h : (w &&& 0xe000 == 0x2000) = true) :
    w / 2 ^ 13 = 1 := by
  have h1 : (w &&& 0xe000) >>> 13 = 0x2000 >>> 13 := by rw [beq_iff_eq.mp h]
  rw [Nat.shiftRight_and_distrib, Nat.shiftRight_eq_div_pow] at h1
  have h2 : w / 2 ^ 13 &&& (2 ^ 3 - 1) = w / 2 ^ 13 % 2 ^ 3 := Nat.and_two_pow_sub_one_eq_mod _ _
  have h3 : w / 2 ^ 13 &&& (2 ^ 3 - 1) = 1 := h1
  omega

theorem exists_quad {high low : Nat} (hh : high ≤ 0xffff) (hl : low ≤ 0xffff) :
    ∃ q : Quad, q.text = dotted (octetsOf high low) ∧ q.address = high * 2 ^ 16 + low := by
  have hand : ∀ n, n &&& 255 = n % 2 ^ 8 := fun n => Nat.and_two_pow_sub_one_eq_mod n 8
  refine ⟨⟨octetsOf high low, rfl, ?_⟩, rfl, ?_⟩
  · simp only [octetsOf, hand, Nat.shiftRight_eq_div_pow, mem_cons, not_mem_nil,
      or_false, forall_eq_or_imp, forall_eq]
    omega
  · simp only [Quad.address, octetsOf, hand, Nat.shiftRight_eq_div_pow, foldl_cons,
      foldl_nil]
    omega

/-- What an accepted IPv6 address satisfies, the embedded destination judged by
`accepts`. -/
structure SoundIpv6 (accepts : Text → Bool) (a : Nat) : Prop where
  longest : LongestMatchAllows IPV6_SPECIAL_PURPOSE 128 a
  unicast : a >>> 125 = 1 ∨
    ∃ r ∈ IPV6_SPECIAL_PURPOSE, r.globallyReachable = true ∧ r.covers 128 a
  embedded : a >>> 32 = translationPrefix →
    ∃ q : Quad, q.address = a % 2 ^ 32 ∧ accepts q.text = true

theorem isPublicUnicastIpv6_sound {host : Text} {ws : List Nat} (hws : expandIpv6 host = some ws)
    (hlen : ws.length = 8) (hb : ∀ w ∈ ws, w ≤ 0xffff) (h : isPublicUnicastIpv6 host = true) :
    SoundIpv6 isPublicUnicastIpv4 (ws.foldl (fun v w => v * 2 ^ 16 + w) 0) := by
  have hvalue : addressValue 128 host = some (ws.foldl (fun v w => v * 2 ^ 16 + w) 0) := by
    rw [addressValue, if_neg (by decide), ipv6Value, hws]
    exact congrArg some (foldl_join (fun w hw => by have := hb w hw; omega) 0)
  rw [isPublicUnicastIpv6, hws] at h
  match ws, hlen, hb with
  | [w0, w1, w2, w3, w4, w5, w6, w7], _, hb =>
    simp only [mem_cons, not_mem_nil, or_false, forall_eq_or_imp, forall_eq] at hb
    simp only [getD_cons_zero, getD_cons_succ, isTranslation, take_succ_cons, take_zero] at h
    simp only [foldl_cons, foldl_nil] at hvalue ⊢
    set a := ((((((((0 * 2 ^ 16 + w0) * 2 ^ 16 + w1) * 2 ^ 16 + w2) * 2 ^ 16 + w3) * 2 ^ 16 + w4) *
      2 ^ 16 + w5) * 2 ^ 16 + w6) * 2 ^ 16 + w7) with ha
    split_ifs at h with htrans
    · simp only [beq_iff_eq, List.cons.injEq, and_true] at htrans
      have hunder : a >>> 32 = translationPrefix := by
        rw [Nat.shiftRight_eq_div_pow]
        show a / 2 ^ 32 = 0x64ff9b0000000000000000
        omega
      obtain ⟨q, htext, haddress⟩ := exists_quad hb.2.2.2.2.2.2.1 hb.2.2.2.2.2.2.2
      refine ⟨fun r hr hc _ => reachable_of_covers_translation hunder r hr hc,
        Or.inr ⟨⟨"64:ff9b::/96", true⟩, by simp [IPV6_SPECIAL_PURPOSE], rfl, ?_⟩,
        fun _ => ⟨q, by omega, htext ▸ h⟩⟩
      rw [AddressRange.covers_iff]
      show _ = some (a >>> 32)
      rw [hunder]
      decide +kernel
    · obtain ⟨hlongest, hd⟩ := allows_of_decision ipv6_consistent hvalue h
      refine ⟨hlongest, hd.imp_left fun hd => ?_, fun hunder => absurd ?_ htrans⟩
      · have := top_bits hb.1 hd
        rw [Nat.shiftRight_eq_div_pow]
        omega
      · rw [Nat.shiftRight_eq_div_pow] at hunder
        have hunder' : a / 2 ^ 32 = 0x64ff9b0000000000000000 := hunder
        simp only [beq_iff_eq, List.cons.injEq, and_true]
        omega

variable {s t : Text}

theorem isPublicUnicastIpv6_congr (h : expandIpv6 s = expandIpv6 t) :
    isPublicUnicastIpv6 s = isPublicUnicastIpv6 t := by
  have hv : addressValue 128 s = addressValue 128 t := by
    rw [addressValue, addressValue, if_neg (by decide), if_neg (by decide), ipv6Value, ipv6Value, h]
  simp only [isPublicUnicastIpv6, registeredRangeDecision, hv, h]

/-! ### The check on a literal -/

/-- `net.isIP` knows every literal. -/
structure AcceptsLiterals (isIP : Text → Nat) : Prop where
  ipv4 : ∀ q : Quad, isIP q.text = 4
  ipv6 : ∀ L : Ipv6Literal, isIP L.text = 6

theorem stripIpv6Brackets_bracketed (h1 : '[' ∉ s) (h2 : ']' ∉ s) (o c : Bool) :
    stripIpv6Brackets (bracketed o c s) = toLowerCase s := by
  have hopen : ∀ t : Text, '[' ∉ t → (if t.head? = some '[' then t.tail else t) = t := fun t ht =>
    if_neg fun h => ht (mem_of_mem_head? h)
  have hclose : (if s.getLast? = some ']' then s.dropLast else s) = s :=
    if_neg fun h => h2 (mem_of_getLast? h)
  unfold stripIpv6Brackets bracketed
  have hc : '[' ∉ s ++ (if c then [']'] else []) := by cases c <;> simp [h1]
  have hfirst : (if ((if o then ['['] else []) ++ (s ++ (if c then [']'] else []))).head? = some '['
      then ((if o then ['['] else []) ++ (s ++ (if c then [']'] else []))).tail
      else (if o then ['['] else []) ++ (s ++ (if c then [']'] else []))) =
        s ++ (if c then [']'] else []) := by
    cases o
    · exact hopen _ hc
    · rfl
  rw [append_assoc]
  simp only [hfirst]
  cases c
  · simp [hclose]
  · simp

section Check

variable {isIP : Text → Nat} (hIP : AcceptsLiterals isIP)
include hIP

theorem isPublicUnicastAddress_ipv4 (q : Quad) (o c : Bool) :
    isPublicUnicastAddress isIP (bracketed o c q.text) = isPublicUnicastIpv4 q.text := by
  have hnot : ∀ d : Char, ¬ d.isDigit = true → d ≠ '.' → d ∉ q.text := fun d h1 h2 hd =>
    (q.isDigit_or_dot hd).elim h1 h2
  rw [isPublicUnicastAddress, stripIpv6Brackets_bracketed (hnot _ (by decide) (by decide))
    (hnot _ (by decide) (by decide)), q.toLowerCase_text, if_pos (hIP.ipv4 q)]

theorem isPublicUnicastAddress_ipv6 (L : Ipv6Literal) (o c : Bool) :
    isPublicUnicastAddress isIP (bracketed o c L.text) = isPublicUnicastIpv6 L.lower.text := by
  have hnot : ∀ d : Char, ¬ d.isAlphanum = true → d ∉ ['-', '.', ':', '%'] → d ∉ L.text :=
    fun d h1 h2 hd => (Ipv6Literal.isLiteralChar_of_mem hd).elim h1 h2
  have h6 := hIP.ipv6 L.lower
  rw [isPublicUnicastAddress, stripIpv6Brackets_bracketed (hnot _ (by decide) (by decide))
    (hnot _ (by decide) (by decide)), ← L.text_lower, if_neg (by omega), if_pos h6]

end Check

/-! ### The promise -/

/-- The zone of the literal is one of those let through after a group (`true`) or
after the `::` (`false`). -/
def Ipv6Literal.ZoneIn (zones : Bool → Zone → Prop) (L : Ipv6Literal) : Prop :=
  ∀ z, L.zone = some z → zones L.endsInGroup z

/-- The check is sound and answers by the address, for every literal whose zone is
let through. -/
structure AnswersByAddress (isIP : Text → Nat) (zones : Bool → Zone → Prop) : Prop where
  ipv4 : ∀ (q : Quad) (o c : Bool),
    isPublicUnicastAddress isIP (bracketed o c q.text) = true →
      LongestMatchAllows IPV4_SPECIAL_PURPOSE 32 q.address
  ipv6 : ∀ L : Ipv6Literal, L.ZoneIn zones → ∀ o c : Bool,
    isPublicUnicastAddress isIP (bracketed o c L.text) = true →
      SoundIpv6 (isPublicUnicastAddress isIP) L.address
  same : ∀ L M : Ipv6Literal, L.ZoneIn zones → M.ZoneIn zones → L.quad = none → M.quad = none →
    L.address = M.address → ∀ o c o' c' : Bool,
      isPublicUnicastAddress isIP (bracketed o c L.text) =
        isPublicUnicastAddress isIP (bracketed o' c' M.text)

variable {L : Ipv6Literal}

theorem words_eq_of_address_eq {M : Ipv6Literal} (h : L.address = M.address) :
    L.words = M.words := by
  have h1 := L.length_words
  have h2 := M.length_words
  have hb1 := fun w => L.word_le (w := w)
  have hb2 := fun w => M.word_le (w := w)
  unfold Ipv6Literal.address at h
  generalize L.words = us at *
  generalize M.words = vs at *
  match us, h1, vs, h2 with
  | [_, _, _, _, _, _, _, _], _, [_, _, _, _, _, _, _, _], _ =>
    simp only [mem_cons, not_mem_nil, or_false, forall_eq_or_imp, forall_eq] at hb1 hb2
    simp only [foldl_cons, foldl_nil] at h
    simp only [List.cons.injEq, and_true]
    omega

theorem expandIpv6_of_quad (h : L.quad ≠ none) : expandIpv6 L.text = none := by
  obtain ⟨q, hq⟩ := ne_none_iff_exists'.mp h
  have hdot : '.' ∈ q.text := by
    obtain ⟨octets, size, -⟩ := q
    match octets, size with
    | [a, b, c, d], _ => simp [Quad.text, dotted, intercalate_cons_cons]
  have hside : ∀ gs : List Group, '.' ∈ Ipv6Literal.side gs L.quad := fun gs => by
    rw [Ipv6Literal.side, hq]
    induction gs with
    | nil => simpa using hdot
    | cons g gs ih =>
      rw [map_cons, cons_append, intercalate_cons_of_ne_nil (by simp)]
      exact mem_append_right _ ih
  rw [expandIpv6, if_pos]
  cases hr : L.rest <;> simp [Ipv6Literal.text, hr, hside]

section Sufficient

variable {zones : Bool → Zone → Prop}
  (hzones : ∀ b z, zones b z → b = true ∧ ':' ∉ z.text ∧ '.' ∉ z.text)
include hzones

theorem expandIpv6_lower (hL : L.ZoneIn zones) (hq : L.quad = none) :
    expandIpv6 L.lower.text = some L.words := by
  have hreadable : L.Readable := fun z hz => hzones _ z (hL z hz)
  rw [Ipv6Literal.expandIpv6_text (L := L.lower) hq hreadable.lower, L.words_lower]

theorem answersByAddress {isIP : Text → Nat} (hIP : AcceptsLiterals isIP) :
    AnswersByAddress isIP zones where
  ipv4 := fun q o c h =>
    isPublicUnicastIpv4_text (isPublicUnicastAddress_ipv4 hIP q o c ▸ h)
  ipv6 := by
    intro L hL o c h
    rw [isPublicUnicastAddress_ipv6 hIP] at h
    by_cases hq : L.quad = none
    · obtain ⟨h1, h2, h3⟩ := isPublicUnicastIpv6_sound (expandIpv6_lower hzones hL hq)
        L.length_words (fun w => L.word_le) h
      refine ⟨h1, h2, fun hunder => ?_⟩
      obtain ⟨q, ha, hq⟩ := h3 hunder
      refine ⟨q, ha, ?_⟩
      have := isPublicUnicastAddress_ipv4 hIP q false false
      rw [bracketed, if_neg (by decide), nil_append, if_neg (by decide), append_nil] at this
      rw [this, hq]
    · have hnone := expandIpv6_of_quad (L := L.lower) hq
      simp [isPublicUnicastIpv6, hnone] at h
  same := by
    intro L M hL hM hqL hqM h o c o' c'
    rw [isPublicUnicastAddress_ipv6 hIP, isPublicUnicastAddress_ipv6 hIP]
    refine isPublicUnicastIpv6_congr ?_
    rw [expandIpv6_lower hzones hL hqL, expandIpv6_lower hzones hM hqM, words_eq_of_address_eq h]

end Sufficient

/-! ### Zones in the way -/

theorem groupsIn_none {gs : List (Option Int)} (h : none ∈ gs) : groupsIn gs = none := by
  unfold groupsIn
  split_ifs with hlen
  · rfl
  · clear hlen
    induction gs with
    | nil => simp at h
    | cons g gs ih =>
      rw [mapM_cons]
      rcases mem_cons.mp h with rfl | h
      · rfl
      · rw [ih h]
        cases g with
        | none => rfl
        | some g => exact bind_fun_none _

theorem splitDoubleColon_ne_nil (s : Text) : splitDoubleColon s ≠ [] := by
  fun_induction splitDoubleColon s <;> simp_all

/-- A zone behind the `::` is read as a group of its own, and is no number. -/
theorem expandIpv6_zone_after_colons (t : Text) : expandIpv6 ("2600::%".toList ++ t) = none := by
  obtain ⟨w, ws, hw⟩ := exists_cons_of_ne_nil (splitDoubleColon_ne_nil t)
  have hsplit : splitDoubleColon ("2600::%".toList ++ t) = ["2600".toList, '%' :: w] ++ ws := by
    have h := splitDoubleColon_append (s := ['%']) (t := t) ⟨by simp, trivial⟩
    rw [hw] at h
    show ("2600".toList ++ []) :: splitDoubleColon (['%'] ++ t) = _
    rw [h]
    rfl
  have hside : none ∈ parseSide ('%' :: w) := by
    rw [parseSide, if_neg (by simp), splitOn_cons_eq_if_modifyHead, if_neg (by decide)]
    obtain ⟨u, us, hu⟩ := exists_cons_of_ne_nil (splitOn_ne_nil ':' w)
    simp [hu, show parseInt16 ('%' :: u) = none from rfl]
  unfold expandIpv6
  simp only [hsplit]
  split_ifs
  · rfl
  · rfl
  · rfl
  · exact groupsIn_none (mem_append_right _ hside)
  · exact absurd (show positionsOf [':', ':'] 0 ("2600::%".toList ++ t) ≠ [] by
      simp [positionsOf, List.isPrefixOf]) ‹_›

theorem positionsOf_eq_nil (part s : Text) (i j : Nat) :
    positionsOf part i s = [] ↔ positionsOf part j s = [] := by
  induction s generalizing i j with
  | nil => simp [positionsOf]
  | cons c s ih =>
    simp only [positionsOf, append_eq_nil_iff]
    rw [ih (i + 1) (j + 1)]
    exact and_congr_left fun _ => by split_ifs <;> simp

theorem le_of_mem_positionsOf {part : Text} {i k : Nat} (h : k ∈ positionsOf part i s) : i ≤ k := by
  induction s generalizing i with
  | nil => simp [positionsOf] at h
  | cons c s ih =>
    rw [positionsOf, mem_append] at h
    rcases h with h | h
    · split_ifs at h <;> simp_all
    · have := ih h
      omega

theorem positionsOf_compressed (h : expandIpv6 ("2600::1%".toList ++ t) ≠ none) :
    positionsOf [':', ':'] 0 t = [] := by
  have hpos : positionsOf [':', ':'] 0 ("2600::1%".toList ++ t) =
      4 :: positionsOf [':', ':'] 8 t := by
    rw [show "2600::1%".toList ++ t = "2600".toList ++ ':' :: ':' :: ("1%".toList ++ t) from rfl,
      positionsOf_append (noDoubleColon_of_notMem (by decide) _)]
    simp [positionsOf, List.isPrefixOf]
  by_contra hne
  refine h ?_
  have hne8 : positionsOf [':', ':'] 8 t ≠ [] := fun h8 =>
    hne ((positionsOf_eq_nil _ _ _ _).mp h8)
  have hdiff : (4 :: positionsOf [':', ':'] 8 t).head? ≠
      (4 :: positionsOf [':', ':'] 8 t).getLast? := by
    rw [getLast?_cons_of_ne_nil hne8, head?_cons]
    intro hlast
    have := le_of_mem_positionsOf (mem_of_getLast? hlast.symm)
    omega
  rw [expandIpv6]
  simp only [hpos, if_pos hdiff, if_pos (cons_ne_nil _ _), ite_self]

theorem expandIpv6_zone_colon (hcolon : ':' ∈ t) (hpos : positionsOf [':', ':'] 0 t = []) :
    expandIpv6 ("2600:0:0:0:0:0:0:1%".toList ++ t) = none := by
  have hnone : positionsOf [':', ':'] 0 ("2600:0:0:0:0:0:0:1%".toList ++ t) = [] := by
    rw [positionsOf_append (by simp [NoDoubleColon])]
    exact (positionsOf_eq_nil _ _ _ _).mp hpos
  obtain ⟨a, b, rfl, ha⟩ := eq_append_cons_of_mem hcolon
  have hsplit : 8 < (("2600:0:0:0:0:0:0:1%".toList ++ (a ++ ':' :: b)).splitOn ':').length := by
    have hhead : "2600:0:0:0:0:0:0:1%".toList ++ (a ++ ':' :: b) =
        "2600".toList ++ ':' :: (['0'] ++ ':' :: (['0'] ++ ':' :: (['0'] ++ ':' :: (['0'] ++
          ':' :: (['0'] ++ ':' :: (['0'] ++ ':' :: (("1%".toList ++ a) ++ ':' :: b))))))) := rfl
    have hlast : ':' ∉ "1%".toList ++ a := by simp [ha]
    have hb := length_pos_of_ne_nil (splitOn_ne_nil ':' b)
    rw [hhead]
    repeat rw [splitOn_append_cons_self_of_not_mem (by decide)]
    rw [splitOn_append_cons_self_of_not_mem hlast]
    simp only [length_cons]
    omega
  rw [expandIpv6]
  simp only [hnone, ne_eq, not_true, if_false]
  have hmany : (("2600:0:0:0:0:0:0:1%".toList ++ (a ++ ':' :: b)).splitOn ':').length ≠ 8 := by
    omega
  rw [groupsIn, length_map, if_pos hmany, ite_self]

/-! ### The zones that may be let through -/

def group2600 : Group := ⟨"2600".toList, by decide, by decide⟩

def group0 : Group := ⟨['0'], by decide, by decide⟩

def group1 : Group := ⟨['1'], by decide, by decide⟩

/-- `2600::`, `2600::1` and `2600::1` in full, each with any zone. -/
def openSpelling (zone : Option Zone) : Ipv6Literal where
  head := [group2600]
  rest := some []
  quad := none
  zone := zone
  fits := by decide

def shortSpelling (zone : Option Zone) : Ipv6Literal where
  head := [group2600]
  rest := some [group1]
  quad := none
  zone := zone
  fits := by decide

def fullSpelling (zone : Option Zone) : Ipv6Literal where
  head := group2600 :: (List.replicate 6 group0 ++ [group1])
  rest := none
  quad := none
  zone := zone
  fits := by decide

theorem AnswersByAddress.expands {isIP : Text → Nat} (hIP : AcceptsLiterals isIP)
    {zones : Bool → Zone → Prop} (h : AnswersByAddress isIP zones) {M : Ipv6Literal}
    (hL : L.ZoneIn zones) (hM : M.zone = none) (hqL : L.quad = none) (hqM : M.quad = none)
    (haddress : L.address = M.address) (haccepts : isPublicUnicastIpv6 M.lower.text = true) :
    expandIpv6 L.lower.text ≠ none := by
  have hsame := h.same L M hL (fun z hz => by simp [hM] at hz) hqL hqM haddress false false false
    false
  rw [isPublicUnicastAddress_ipv6 hIP, isPublicUnicastAddress_ipv6 hIP, haccepts] at hsame
  intro hnone
  simp [isPublicUnicastIpv6, hnone] at hsame

/-- **The check answers by the address exactly when no zone suffix is let through
that stands behind the `::`, or holds a colon or a dot.** -/
theorem addressCheck_iff {isIP : Text → Nat} (hIP : AcceptsLiterals isIP)
    (zones : Bool → Zone → Prop) :
    AnswersByAddress isIP zones ↔
      ∀ afterGroup z, zones afterGroup z → afterGroup = true ∧ ':' ∉ z.text ∧ '.' ∉ z.text := by
  refine ⟨fun h afterGroup z hz => ?_, fun hzones => answersByAddress hzones hIP⟩
  cases afterGroup with
  | false =>
    have hL : (openSpelling (some z)).ZoneIn zones := fun y hy => Option.some.inj hy ▸ hz
    have := h.expands hIP hL (M := openSpelling none) rfl rfl rfl rfl (by decide +kernel)
    exact absurd (expandIpv6_zone_after_colons (toLowerCase z.text)) this
  | true =>
    have hL : (shortSpelling (some z)).ZoneIn zones := fun y hy => Option.some.inj hy ▸ hz
    have hF : (fullSpelling (some z)).ZoneIn zones := fun y hy => Option.some.inj hy ▸ hz
    have hshort := h.expands hIP hL (M := shortSpelling none) rfl rfl rfl rfl (by decide +kernel)
    have hfull := h.expands hIP hF (M := shortSpelling none) rfl rfl rfl rfl (by decide +kernel)
    refine ⟨rfl, fun hcolon => hfull ?_, fun hdot => hshort ?_⟩
    · exact expandIpv6_zone_colon ((mem_toLowerCase (by decide) _).mpr hcolon)
        (positionsOf_compressed hshort)
    · have hmem : '.' ∈ "2600::1%".toList ++ toLowerCase z.text :=
        mem_append_right _ ((mem_toLowerCase (by decide) _).mpr hdot)
      exact if_pos hmem

/-- On the literals, a colon alone tells the two families apart. -/
def kindByColon (s : Text) : Nat := if ':' ∈ s then 6 else 4

theorem acceptsLiterals_kindByColon : AcceptsLiterals kindByColon where
  ipv4 := fun q => if_neg fun h => (q.isDigit_or_dot h).elim (by decide) (by decide)
  ipv6 := fun L => if_pos <| by
    have hfits := L.fits
    cases hr : L.rest with
    | some rest => simp [Ipv6Literal.text, hr]
    | none =>
      rw [hr] at hfits
      rw [Ipv6Literal.text, hr]
      refine mem_append_left _ ?_
      rcases hh : L.head with _ | ⟨g, _ | ⟨g', gs⟩⟩
      case cons.cons => simp [Ipv6Literal.side, intercalate_cons_cons]
      all_goals
        rw [hh] at hfits
        cases hq : L.quad <;> simp [hq] at hfits

/-- Interface names after a group are in no way. -/
theorem addressCheck_eth0 :
    AnswersByAddress kindByColon fun afterGroup z => afterGroup = true ∧ z.text = "eth0".toList :=
  (addressCheck_iff acceptsLiterals_kindByColon _).mpr fun afterGroup z hz => by
    rw [hz.2]
    exact ⟨hz.1, by decide, by decide⟩

/-- `::2001` with a zone that spells the other seven groups of a public address. -/
def zonedSpelling : Ipv6Literal where
  head := []
  rest := some [⟨"2001".toList, by decide, by decide⟩]
  quad := none
  zone := some ⟨"x:4860:0:0:0:0:0:8888".toList, by decide, by simp⟩
  fits := by decide

/-- The check takes this address, which is outside `2000::/3` and every reachable
range, for a public one. -/
theorem zonedSpelling_misread :
    zonedSpelling.text = "::2001%x:4860:0:0:0:0:0:8888".toList ∧
      zonedSpelling.address = 0x2001 ∧
      isPublicUnicastAddress kindByColon zonedSpelling.text = true ∧
      ¬ AnswersByAddress kindByColon fun _ _ => True := by
  have haccepts : isPublicUnicastAddress kindByColon zonedSpelling.text = true := by
    decide +kernel
  refine ⟨rfl, rfl, haccepts, fun h => ?_⟩
  have hsound := (h.ipv6 zonedSpelling (fun _ _ => trivial) false false haccepts).unicast
  revert hsound
  decide +kernel

end OpenBooks.Networking
