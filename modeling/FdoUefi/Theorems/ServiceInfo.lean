import FdoUefi.Lemmas.ServiceInfo
import FdoUefi.Lemmas.SigStructure

/-!
# A ServiceInfo gives the pairs among its elements

It does as long as the loop goes from element to element. It does so over pairs and over arrays of one item; a longer array is
left behind its first item, and an empty one takes the element after it along.
-/

namespace FdoUefi

open Prog Prog.Run Cbor Cur

/-- The parser fails, or returns the pairs among the elements. -/
def ServiceInfoExact (d : Bytes) (es : List Bytes) : Prop :=
  ∀ kvs, PairsOf es kvs → ∀ fuel, d.length < fuel →
    (∃ e, parseServiceInfoArray fuel d = .err e) ∨ parseServiceInfoArray fuel d = .ok kvs

/-- In `n` turns over the elements the loop stays on them, or fails, or is through with the last of them. -/
inductive InTurn : Nat → List Bytes → Prop where
  | done : InTurn 0 []
  | ends {n : Nat} : InTurn (n + 1) []
  | refused {n : Nat} {e : Bytes} {es : List Bytes} (he : Refused e) : InTurn (n + 1) (e :: es)
  | pair {n : Nat} {e : Bytes} {kv : Bytes × Bytes} {es : List Bytes} (he : IsPair e kv) (hes : InTurn n es) : InTurn (n + 1) (e :: es)
  | single {n : Nat} {e x : Bytes} {es : List Bytes} (he : IsArray Head.Rfc e [x]) (hx : Item PlainHead x) (hes : InTurn n es) :
      InTurn (n + 1) (e :: es)
  | longer {n : Nat} {e x y z : Bytes} {xs es : List Bytes} (he : IsArray Head.Rfc e (x :: y :: z :: xs)) (hx : Item PlainHead x)
      (hy : Refused y) : InTurn (n + 2) (e :: es)
  | last {e x y z : Bytes} {xs : List Bytes} (he : IsArray Head.Rfc e (x :: y :: z :: xs)) (hx : Item PlainHead x) : InTurn 1 [e]
  | empty {n : Nat} {e x : Bytes} {es : List Bytes} (he : IsArray Head.Rfc e []) (hx : Item PlainHead x) (hes : InTurn n es)
      (hlt : es.length < n) : InTurn (n + 1) (e :: x :: es)
  | emptyLast {n : Nat} {e : Bytes} (he : IsArray Head.Rfc e []) : InTurn (n + 1) [e]

/-- An element that does no harm among pairs. -/
inductive Harmless (e : Bytes) : Prop where
  | pair {kv : Bytes × Bytes} (he : IsPair e kv)
  | refused (he : Refused e)
  | empty (he : IsArray Head.Rfc e [])
  | single {x : Bytes} (he : IsArray Head.Rfc e [x])
  | longer {x y z : Bytes} {xs : List Bytes} (he : IsArray Head.Rfc e (x :: y :: z :: xs)) (hy : Refused y)

/-- The parser is exact on every array of pairs and this element. -/
def ExactAmongPairs (e : Bytes) : Prop :=
  ∀ before after d, (∀ x ∈ before ++ after, ∃ kv, IsPair x kv) → d.length ≤ sliceMax → IsArray Head.Rfc d (before ++ e :: after) →
    ServiceInfoExact d (before ++ e :: after)

namespace Aux

variable {d : Bytes} {fuel n p : Nat}

/-! ### Pairs of some elements -/

/-- A pair in front is the first of the pairs. -/
theorem pairsOf_cons_pair {e : Bytes} {kv : Bytes × Bytes} {es : List Bytes} {kvs : List (Bytes × Bytes)} (he : IsPair e kv)
    (h : PairsOf (e :: es) kvs) : ∃ kvs', kvs = kv :: kvs' ∧ PairsOf es kvs' := by
  cases h with
  | pair he' hes =>
    rw [he'.unique he]
    exact ⟨_, rfl, hes⟩
  | other hno _ => exact absurd he (hno kv)

/-- Anything else in front is left out. -/
theorem pairsOf_cons_other {e : Bytes} {es : List Bytes} {kvs : List (Bytes × Bytes)} (he : ∀ kv, ¬IsPair e kv)
    (h : PairsOf (e :: es) kvs) : PairsOf es kvs := by
  cases h with
  | pair he' _ => exact absurd he' (he _)
  | other _ hes => exact hes

/-! ### The loop -/

/-- The items of an array, the first of them and what follows it. -/
theorem first_at {x : Bytes} {xs : List Bytes} {q r : Nat} (hat : At d q (x :: xs).flatten) (hend : q + (x :: xs).flatten.length = r) :
    At d q x ∧ At d (q + x.length) xs.flatten ∧ q + x.length + xs.flatten.length = r := by
  rw [List.flatten_cons] at hat hend
  obtain ⟨hx, hxs⟩ := at_append_iff.1 hat
  rw [List.length_append] at hend
  exact ⟨hx, hxs, by omega⟩

/-- Where the elements come in turn, the loop fails or gives all pairs. -/
theorem loop_inTurn {es : List Bytes} (hd : d.length ≤ sliceMax) (hfuel : d.length < fuel) (h : InTurn n es)
    (hes : ∀ e ∈ es, Item Head.Rfc e) (hat : At d p es.flatten) (hend : p + es.flatten.length = d.length) :
    Fails (serviceInfoLoop fuel d n) p ∨
      n = es.length ∧ ∀ kvs, PairsOf es kvs → ∃ q, Reads (serviceInfoLoop fuel d n) p kvs q := by
  induction h generalizing p with
  | done =>
    refine .inr ⟨rfl, fun kvs hk => ?_⟩
    cases hk
    exact ⟨p, .pure []⟩
  | ends =>
    rw [List.flatten_nil, List.length_nil] at hend
    exact .inl (turn_end (by omega))
  | @refused n e es he =>
    obtain ⟨heat, -, -⟩ := first_at hat hend
    exact .inl (turn_refused hd (hes e (by simp)) he heat)
  | @pair n e kv es he _ ih =>
    obtain ⟨heat, hrest, hend'⟩ := first_at hat hend
    rcases ih (fun x hx => hes x (by simp [hx])) hrest hend' with hf | ⟨rfl, hr⟩
    · exact .inl ((turn_pair (q := 0) hd he heat).1 hf)
    · refine .inr ⟨rfl, fun kvs hk => ?_⟩
      obtain ⟨kvs', rfl, hk'⟩ := pairsOf_cons_pair he hk
      obtain ⟨q, hq⟩ := hr kvs' hk'
      exact ⟨q, (turn_pair hd he heat).2 kvs' hq⟩
  | @single n e x es he hx _ ih =>
    obtain ⟨heat, hrest, hend'⟩ := first_at hat hend
    obtain ⟨r, -, hitems, hr, -⟩ := arrayLen_reads hd he heat
    obtain ⟨hxat, -, hxend⟩ := first_at hitems hr
    rw [List.flatten_nil, List.length_nil, Nat.add_zero] at hxend
    have hturn := fun q => turn_other (n := n) (q := q) hd hfuel he (by simp) hx heat hxat hr
    rw [hxend] at hturn
    rcases ih (fun x hx => hes x (by simp [hx])) hrest hend' with hf | ⟨rfl, hread⟩
    · exact .inl ((hturn 0).1 hf)
    · refine .inr ⟨rfl, fun kvs hk => ?_⟩
      obtain ⟨q, hq⟩ := hread kvs (pairsOf_cons_other (not_isPair_of_length he (by simp)) hk)
      exact ⟨q, (hturn q).2 kvs hq⟩
  | @longer n e x y z xs es he hx hy =>
    obtain ⟨heat, -, -⟩ := first_at hat hend
    obtain ⟨r, -, hitems, hr, -⟩ := arrayLen_reads hd he heat
    obtain ⟨hxat, hitems', hr'⟩ := first_at hitems hr
    obtain ⟨hyat, -, -⟩ := first_at hitems' hr'
    have hyitem : Item Head.Rfc y := by
      obtain ⟨_, -, -, -, -, hall⟩ := he
      exact hall y (by simp)
    exact .inl ((turn_other (q := 0) hd hfuel he (by simp) hx heat hxat hr).1 (turn_refused hd hyitem hy hyat))
  | @last e x y z xs he hx =>
    obtain ⟨heat, -, -⟩ := first_at hat hend
    obtain ⟨r, -, hitems, hr, -⟩ := arrayLen_reads hd he heat
    obtain ⟨hxat, -, -⟩ := first_at hitems hr
    refine .inr ⟨rfl, fun kvs hk => ?_⟩
    cases pairsOf_cons_other (not_isPair_of_length he (by simp)) hk
    exact ⟨_, (turn_other hd hfuel he (by simp) hx heat hxat hr).2 [] (.pure [])⟩
  | @empty n e x es he hx _ hlt ih =>
    obtain ⟨heat, hrest, hend'⟩ := first_at hat hend
    obtain ⟨hxat, hrest', hend''⟩ := first_at hrest hend'
    rcases ih (fun x hx => hes x (by simp [hx])) hrest' hend'' with hf | ⟨rfl, -⟩
    · exact .inl ((turn_other (q := 0) hd hfuel he (by simp) hx heat hxat (Nat.add_zero _)).1 hf)
    · omega
  | @emptyLast n e he =>
    obtain ⟨heat, -, hend'⟩ := first_at hat hend
    rw [List.flatten_nil, List.length_nil, Nat.add_zero] at hend'
    exact .inl (turn_empty_end hd hfuel he heat hend')

/-! ### The parser -/

/-- The parser goes on behind the head of the array. -/
theorem parse_eq (fuel : Nat) {es : List Bytes} (hd : d.length ≤ sliceMax) (h : IsArray Head.Rfc d es) :
    ∃ p, At d p es.flatten ∧ p + es.flatten.length = d.length ∧
      (Fails (serviceInfoLoop fuel d es.length) p → ∃ e, parseServiceInfoArray fuel d = .err e) ∧
      ∀ kvs q, Reads (serviceInfoLoop fuel d es.length) p kvs q → parseServiceInfoArray fuel d = .ok kvs := by
  obtain ⟨p, hlen, hat, hend, -⟩ := arrayLen_reads hd h (at_zero_iff.2 ⟨[], (List.append_nil d).symm⟩)
  rw [Nat.zero_add] at hend
  refine ⟨p, hat, hend, ?_, ?_⟩
  · intro hf
    obtain ⟨e, c, hrun⟩ := Fails.after (f := fun len => serviceInfoLoop fuel d len) hlen hf []
    refine ⟨e, ?_⟩
    rw [parseServiceInfoArray, if_neg h.item.ne_nil]
    exact congrArg Prod.fst hrun
  · intro kvs q hr
    obtain ⟨log, hrun⟩ := Reads.bind (f := fun len => serviceInfoLoop fuel d len) hlen hr []
    rw [parseServiceInfoArray, if_neg h.item.ne_nil]
    exact congrArg Prod.fst hrun

/-- An array whose elements come in turn is read exactly. -/
theorem exact_of_inTurn {es : List Bytes} (hd : d.length ≤ sliceMax) (h : IsArray Head.Rfc d es) (hturn : InTurn es.length es) :
    ServiceInfoExact d es := by
  intro kvs hk fuel hfuel
  obtain ⟨p, hat, hend, hfails, hreads⟩ := parse_eq fuel hd h
  have hes : ∀ e ∈ es, Item Head.Rfc e := by
    obtain ⟨_, -, -, -, -, hall⟩ := h
    exact hall
  rcases loop_inTurn hd hfuel hturn hes hat hend with hf | ⟨-, hr⟩
  · exact .inl (hfails hf)
  · obtain ⟨q, hq⟩ := hr kvs hk
    exact .inr (hreads kvs q hq)

/-! ### One element among pairs -/

/-- Pairs come in turn. -/
theorem inTurn_of_pairs {es : List Bytes} (hes : ∀ x ∈ es, ∃ kv, IsPair x kv) (hn : es.length ≤ n) : InTurn n es := by
  induction es generalizing n with
  | nil =>
    cases n with
    | zero => exact .done
    | succ n => exact .ends
  | cons e es ih =>
    obtain ⟨n, rfl⟩ : ∃ k, n = k + 1 := ⟨n - 1, by rw [List.length_cons] at hn; omega⟩
    obtain ⟨kv, hkv⟩ := hes e (by simp)
    exact .pair hkv (ih (fun x hx => hes x (by simp [hx])) (by rw [List.length_cons] at hn; omega))

/-- Pairs in front of what comes in turn come in turn. -/
theorem inTurn_append {es rest : List Bytes} (hes : ∀ x ∈ es, ∃ kv, IsPair x kv) (h : InTurn n rest) :
    InTurn (es.length + n) (es ++ rest) := by
  induction es with
  | nil => rwa [List.length_nil, Nat.zero_add]
  | cons e es ih =>
    obtain ⟨kv, hkv⟩ := hes e (by simp)
    rw [List.length_cons, Nat.add_right_comm]
    exact .pair hkv (ih fun x hx => hes x (by simp [hx]))

/-- The elements of a plain array are plain. -/
theorem IsArray.plain {e : Bytes} {xs : List Bytes} (h : IsArray Head.Rfc e xs) (he : Item PlainHead e) {x : Bytes} (hx : x ∈ xs) :
    Item PlainHead x := by
  obtain ⟨_, -, -, -, -, hall⟩ := h.mono he
  exact hall x hx

/-- Something harmless is read exactly among pairs. -/
theorem exactAmongPairs_of_harmless {e : Bytes} (he : Item PlainHead e) (h : Harmless e) : ExactAmongPairs e := by
  intro before after d hpairs hd hall
  have hafter : ∀ x ∈ after, ∃ kv, IsPair x kv := fun x hx => hpairs x (by simp [hx])
  refine exact_of_inTurn hd hall ?_
  rw [List.length_append, List.length_cons]
  refine inTurn_append (fun x hx => hpairs x (by simp [hx])) ?_
  cases h with
  | pair he => exact .pair he (inTurn_of_pairs hafter le_rfl)
  | refused he => exact .refused he
  | single harr => exact .single harr (IsArray.plain harr he (by simp)) (inTurn_of_pairs hafter le_rfl)
  | longer harr hy =>
    have hx := IsArray.plain harr he (List.mem_cons_self ..)
    cases after with
    | nil => exact .last harr hx
    | cons x after => exact .longer harr hx hy
  | empty harr =>
    cases after with
    | nil => exact .emptyLast harr
    | cons x after =>
      obtain ⟨kv, hkv⟩ := hafter x (by simp)
      refine .empty harr hkv.plain (inTurn_of_pairs (fun y hy => hafter y (by simp [hy])) ?_) ?_ <;> simp

/-- The pair of an empty text and `v`. -/
def pairOf (v : Bytes) : Bytes := UInt8.ofNat (4 * 32 + 2) :: [encodeTstr [], encodeBstr v].flatten

/-- The pair of an empty text and `v` is a pair. -/
theorem pairOf_isPair {v : Bytes} (hv : v.length < 2 ^ 32) : IsPair (pairOf v) ([], v) := by
  have htext := encodeTstr_isText (s := []) (by decide)
  have hbstr := encodeBstr_isBstr hv
  refine ⟨_, _, isArray_of_small (by decide) rfl ?_, htext.1, show utf8Valid [] = true by decide, hbstr.1⟩
  intro x hx
  rcases List.mem_pair.1 hx with rfl | rfl
  · exact htext.2
  · exact hbstr.2

/-- Behind a longer element whose second item is not refused the parser takes that one in place of the next element. -/
theorem parse_longer {e last x y z : Bytes} {xs : List Bytes} (hd : d.length ≤ sliceMax) (hfuel : d.length < fuel)
    (hplain : Item PlainHead e) (h : IsArray Head.Rfc d [e, last]) (he : IsArray Head.Rfc e (x :: y :: z :: xs)) (hy : ¬Refused y) :
    ∃ kvs, parseServiceInfoArray fuel d = .ok kvs ∧ (kvs = [] ∨ ∃ kv, IsPair y kv ∧ kvs = [kv]) := by
  obtain ⟨p, hat, hend, -, hreads⟩ := parse_eq fuel hd h
  obtain ⟨heat, -, -⟩ := first_at hat hend
  obtain ⟨r, -, hitems, hr, -⟩ := arrayLen_reads hd he heat
  obtain ⟨hxat, hitems', hr'⟩ := first_at hitems hr
  obtain ⟨hyat, hitems'', hr''⟩ := first_at hitems' hr'
  obtain ⟨hzat, -, -⟩ := first_at hitems'' hr''
  have hturn := fun kvs q => (turn_other (n := 1) (q := q) hd hfuel he (by simp) (IsArray.plain he hplain (by simp)) heat hxat hr).2 kvs
  have hyplain : Item PlainHead y := IsArray.plain he hplain (by simp)
  obtain ⟨ys, hys⟩ : ∃ ys, IsArray Head.Rfc y ys := by
    by_contra hno
    exact hy (.noArray fun ys hys => hno ⟨ys, hys⟩)
  by_cases hpair : ∃ kv, IsPair y kv
  · obtain ⟨kv, hkv⟩ := hpair
    exact ⟨[kv], hreads _ _ (hturn _ _ ((turn_pair hd hkv hyat).2 [] (.pure []))), .inr ⟨kv, hkv, rfl⟩⟩
  · have hne : ys.length ≠ 2 := by
      intro h2
      obtain ⟨a, b, rfl⟩ := List.length_eq_two.1 h2
      exact hy (.noPair hys fun kv hkv => hpair ⟨kv, hkv⟩)
    refine ⟨[], ?_, .inl rfl⟩
    obtain ⟨s, -, hyitems, hs, -⟩ := arrayLen_reads hd hys hyat
    cases ys with
    | nil =>
      rw [List.flatten_nil, List.length_nil, Nat.add_zero] at hs
      rw [← hs] at hzat
      exact hreads _ _ (hturn _ _ ((turn_other hd hfuel hys hne (IsArray.plain he hplain (by simp)) hyat hzat hs).2 [] (.pure [])))
    | cons y₁ ys =>
      obtain ⟨hy₁at, -, -⟩ := first_at hyitems hs
      exact hreads _ _ (hturn _ _ ((turn_other hd hfuel hys hne (IsArray.plain hys hyplain (by simp)) hyat hy₁at hs).2 [] (.pure [])))

/-- What is read exactly among pairs is harmless. -/
theorem harmless_of_exactAmongPairs {e : Bytes} (he : Item PlainHead e) (hfits : e.length + 5 ≤ sliceMax) (h : ExactAmongPairs e) :
    Harmless e := by
  by_cases harr : ∃ xs, IsArray Head.Rfc e xs
  swap
  · exact .refused (.noArray fun xs hxs => harr ⟨xs, hxs⟩)
  obtain ⟨xs, hxs⟩ := harr
  match xs, hxs with
  | [], hxs => exact .empty hxs
  | [x], hxs => exact .single hxs
  | [a, b], hxs =>
    by_cases hpair : ∃ kv, IsPair e kv
    · obtain ⟨kv, hkv⟩ := hpair
      exact .pair hkv
    · exact .refused (.noPair hxs fun kv hkv => hpair ⟨kv, hkv⟩)
  | x :: y :: z :: xs, hxs =>
    by_cases hy : Refused y
    · exact .longer hxs hy
    exfalso
    -- A value that the second item does not have.
    obtain ⟨v, hv, hno⟩ : ∃ v : Bytes, v.length ≤ 1 ∧ ¬IsPair y ([], v) := by
      by_cases hnil : IsPair y ([], [])
      · refine ⟨[0], le_rfl, fun hzero => ?_⟩
        have heq := hnil.unique hzero
        simp at heq
      · exact ⟨[], Nat.zero_le _, hnil⟩
    have hlast := pairOf_isPair (v := v) (by omega)
    have hd := @isArray_of_small 2 [e, pairOf v] (by decide) rfl (by
      intro w hw
      rcases List.mem_pair.1 hw with rfl | rfl
      · exact he.mono fun _ hp => hp.1
      · exact hlast.plain.mono fun _ hp => hp.1)
    generalize hd' : UInt8.ofNat (4 * 32 + 2) :: [e, pairOf v].flatten = d at hd
    have hlen : d.length ≤ sliceMax := by
      have hpairOf : (pairOf v).length ≤ 4 := by
        rcases v with _ | ⟨b, _ | ⟨_, _⟩⟩
        · decide
        · simp [pairOf, encodeTstr, encodeBstr, encodeHead]
        · simp at hv
      rw [← hd', List.length_cons, List.flatten_cons, List.flatten_singleton, List.length_append]
      omega
    obtain ⟨kvs, hparse, hkvs⟩ := parse_longer hlen (Nat.lt_succ_self d.length) he hd hxs hy
    have hall : PairsOf [e, pairOf v] [([], v)] := .other (not_isPair_of_length hxs (by simp)) (.pair hlast .nil)
    have hpairs : ∀ w ∈ [] ++ [pairOf v], ∃ kv, IsPair w kv := by
      intro w hw
      obtain rfl : w = pairOf v := List.mem_singleton.1 hw
      exact ⟨_, hlast⟩
    rcases h [] [pairOf v] d hpairs hlen hd _ hall _ (Nat.lt_succ_self _) with ⟨err, herr⟩ | hok
    · rw [hparse] at herr
      cases herr
    · obtain rfl : kvs = [([], v)] := Outcome.ok.inj (hparse.symm.trans hok)
      rcases hkvs with hnil | ⟨kv, hkv, heq⟩
      · cases hnil
      · rw [← List.singleton_inj.1 heq] at hkv
        exact hno hkv

/-! ### Samples -/

/-- The byte `00` is an item. -/
theorem zero_item : Item PlainHead [0x00] := by
  have hdefined : additional 0x00 < 28 ∨ major 0x00 = 7 := .inl (by decide)
  have hmajor : major 0x00 = 0 := by decide
  exact Item.int ⟨0x00, [], rfl, hdefined⟩ (plain_of_low (m := 0) hmajor (by decide)) (.inl hmajor)

/-- A plain item is one of RFC 8949. -/
theorem rfc_of_plain {u : Bytes} (h : Item PlainHead u) : Item Head.Rfc u := h.mono fun _ hp => hp.1

end Aux

/-- **The parser is exact on every array whose elements keep the loop in turn, and among pairs it bears no other element than the
harmless ones.** -/
theorem parseServiceInfoArray_exact (d e : Bytes) (es : List Bytes) :
    (d.length ≤ sliceMax → IsArray Head.Rfc d es → InTurn es.length es → ServiceInfoExact d es) ∧
      (Item PlainHead e → e.length + 5 ≤ sliceMax → (ExactAmongPairs e ↔ Harmless e)) := by
  refine ⟨fun hd harr hturn => Aux.exact_of_inTurn hd harr hturn, fun he hfits => ?_⟩
  exact ⟨Aux.harmless_of_exactAmongPairs he hfits, Aux.exactAmongPairs_of_harmless he⟩

/-- An array of the item 0 stands between two pairs. -/
def sampleEntries : List Bytes := [Aux.pairOf [], [0x81, 0x00], Aux.pairOf [0x00]]

/-- A pair, something harmless and another pair are read exactly. -/
theorem sampleEntries_exact : ServiceInfoExact (0x83 :: sampleEntries.flatten) sampleEntries := by
  have hfirst := Aux.pairOf_isPair (v := []) (by decide)
  have hlast := Aux.pairOf_isPair (v := [0x00]) (by decide)
  have hsingle : IsArray Head.Rfc [0x81, 0x00] [[0x00]] := @isArray_of_small 1 [[0x00]] (by decide) rfl (by
    intro x hx
    rw [List.mem_singleton.1 hx]
    exact Aux.rfc_of_plain Aux.zero_item)
  have harr : IsArray Head.Rfc (0x83 :: sampleEntries.flatten) sampleEntries := isArray_of_small (n := 3) (by decide) rfl (by
    intro x hx
    simp only [sampleEntries, List.mem_cons, List.not_mem_nil, or_false] at hx
    rcases hx with rfl | rfl | rfl
    · exact Aux.rfc_of_plain hfirst.plain
    · exact hsingle.item
    · exact Aux.rfc_of_plain hlast.plain)
  exact (parseServiceInfoArray_exact _ [0x00] sampleEntries).1 (by decide) harr
    (.pair hfirst (.single hsingle Aux.zero_item (.pair hlast .done)))

/-- `[0, ["", h''], 0]`, and a pair after it. -/
def sampleNested : List Bytes := [0x83 :: [[0x00], Aux.pairOf [], [0x00]].flatten, Aux.pairOf [0x00]]

/-- The parser returns the pair inside the first element, and not the second element. -/
theorem sampleNested_returned : IsArray Head.Rfc (0x82 :: sampleNested.flatten) sampleNested ∧
    PairsOf sampleNested [([], [0x00])] ∧ parseServiceInfoArray 16 (0x82 :: sampleNested.flatten) = .ok [([], [])] ∧
    ¬ServiceInfoExact (0x82 :: sampleNested.flatten) sampleNested := by
  have hinner := Aux.pairOf_isPair (v := []) (by decide)
  have hlast := Aux.pairOf_isPair (v := [0x00]) (by decide)
  have hlonger := @isArray_of_small 3 [[0x00], Aux.pairOf [], [0x00]] (by decide) rfl (by
    intro x hx
    simp only [List.mem_cons, List.not_mem_nil, or_false] at hx
    rcases hx with rfl | rfl | rfl
    · exact Aux.rfc_of_plain Aux.zero_item
    · exact Aux.rfc_of_plain hinner.plain
    · exact Aux.rfc_of_plain Aux.zero_item)
  have harr : IsArray Head.Rfc (0x82 :: sampleNested.flatten) sampleNested := isArray_of_small (n := 2) (by decide) rfl (by
    intro x hx
    rcases List.mem_pair.1 hx with rfl | rfl
    · exact hlonger.item
    · exact Aux.rfc_of_plain hlast.plain)
  have hpairs : PairsOf sampleNested [([], [0x00])] := .other (not_isPair_of_length hlonger (by decide)) (.pair hlast .nil)
  have hparse : parseServiceInfoArray 16 (0x82 :: sampleNested.flatten) = .ok [([], [])] := by decide
  refine ⟨harr, hpairs, hparse, fun hexact => ?_⟩
  rcases hexact _ hpairs 16 (by decide) with ⟨e, he⟩ | hok
  · rw [hparse] at he
    cases he
  · rw [hparse] at hok
    exact absurd (Outcome.ok.inj hok) (by decide)

end FdoUefi
