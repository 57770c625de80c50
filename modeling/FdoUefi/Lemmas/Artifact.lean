import FdoUefi.Lemmas.Envelope
import FdoUefi.Lemmas.Delegate
import FdoUefi.Lemmas.SigStructure
import FdoUefi.Chunking

/-!
# What a signed artifact carries

The headers of an artifact are searched for one integer label (`labelLoop_ok`): the content type in the protected header, the
x5chain in the unprotected one. What is found is the value of the first entry with that label, and every entry before it is an
integer key with one item.
-/

namespace FdoUefi

open Prog Prog.Run Cbor

/-- In the map `header`, `value` stands after the first key that is the integer `label`; the keys before it are other
integers. -/
def HasLabel (header : Bytes) (label : Int) (value : Bytes) : Prop :=
  ∃ (hd : Head) (es : List (Bytes × Bytes)) (key rest : Bytes), hd.IsMajor 5 ∧ es.length < hd.arg ∧
    header = hd.bytes ++ (entryBytes es ++ (key ++ value)) ++ rest ∧
    (∀ e ∈ es, (∃ i, i ≠ label ∧ IsInt e.1 i) ∧ Item Head.Narrow e.2) ∧ IsInt key label

/-- An x5chain with these certificates, leaf first: an array of byte strings, or one byte string. -/
def IsX5chain (value : Bytes) (certs : List Bytes) : Prop :=
  (∃ xs, IsArray Head.Narrow value xs ∧ List.Forall₂ IsBstr xs certs) ∨ ∃ cert, certs = [cert] ∧ IsBstr value cert

/-- The search of a header map: the values of other integer labels are skipped. -/
def labelLoop {α : Type} (d : Bytes) (label : Int) (found : Run Nat Unit α) : Nat → Run Nat Unit α
  | 0 => fail ()
  | n + 1 => do
    let key ← cborReadIntValue d
    if key = label then found
    else
      cborSkip d
      labelLoop d label found n

/-- A text value. -/
def readTextValue (d : Bytes) : Run Nat Unit Bytes := do
  let b ← next d
  ensure (major b = 3) ()
  let len ← cborReadUintArg d (additional b)
  takeText d len

/-- The search for a text is the search for its label. -/
theorem parseProtectedTstrLoop_eq (d : Bytes) (target : Int) (n : Nat) :
    parseProtectedTstrLoop d target n = labelLoop d target (readTextValue d) n := by
  induction n with
  | zero => rfl
  | succ n ih => rw [parseProtectedTstrLoop, labelLoop, ih]; rfl

/-- The search for a chain is the search for its label. -/
theorem extractX5chainLoop_eq (d : Bytes) (n : Nat) :
    extractX5chainLoop d n = labelLoop d coseLabelX5chain (parseX5chainValue d) n := by
  induction n with
  | zero => rfl
  | succ n ih => rw [extractX5chainLoop, labelLoop, ih]

variable {d : Bytes}

/-- An integer that was read is an integer item. -/
theorem cborReadIntValue_ok {p q : Nat} {i : Int} (h : cborReadIntValue d p = (.ok i, q)) :
    ∃ bs, IsInt bs i ∧ At d p bs ∧ q = p + bs.length := by
  simp only [cborReadIntValue, bind_ok_iff] at h
  obtain ⟨b, t, hb, arg, r, ha, h⟩ := h
  obtain ⟨hd, rfl, -, hat, rfl, rfl⟩ := cborHead_ok hb ha
  split_ifs at h with h0 h1
  · obtain ⟨rfl, rfl⟩ := pure_ok_iff.1 h
    exact ⟨hd.bytes, ⟨hd, .inl ⟨h0, rfl⟩, rfl⟩, hat, rfl⟩
  · obtain ⟨rfl, rfl⟩ := pure_ok_iff.1 h
    exact ⟨hd.bytes, ⟨hd, .inr ⟨h1, rfl⟩, rfl⟩, hat, rfl⟩
  · simp at h

/-- A search reads at least one key. -/
theorem labelLoop_lt {α : Type} {label : Int} {found : Run Nat Unit α} {n p q : Nat} {a : α}
    (h : labelLoop d label found n p = (.ok a, q)) : p < d.length := by
  cases n with
  | zero => simp [labelLoop] at h
  | succ n =>
    simp only [labelLoop, cborReadIntValue, bind_ok_iff, next_ok_iff] at h
    obtain ⟨key, t, ⟨b, _, ⟨hat, -⟩, -⟩, -⟩ := h
    have := hat.end_le
    simp only [List.length_singleton] at this
    omega

/-- What a search finds stands after the label, and the entries before it have other labels. -/
theorem labelLoop_ok {α : Type} {label : Int} {found : Run Nat Unit α} {n p q : Nat} {a : α}
    (h : labelLoop d label found n p = (.ok a, q)) :
    ∃ (es : List (Bytes × Bytes)) (key : Bytes), es.length < n ∧ At d p (entryBytes es ++ key) ∧
      (∀ e ∈ es, (∃ i, i ≠ label ∧ IsInt e.1 i) ∧ Item Head.Narrow e.2) ∧ IsInt key label ∧
      found (p + (entryBytes es ++ key).length) = (.ok a, q) := by
  induction n generalizing p with
  | zero => simp [labelLoop] at h
  | succ n ih =>
    obtain ⟨i, t, hkey, hrest⟩ := bind_ok_iff.1 h
    obtain ⟨key, hint, hat, rfl⟩ := cborReadIntValue_ok hkey
    split_ifs at hrest with hlabel
    · subst hlabel
      exact ⟨[], key, Nat.succ_pos n, hat, nofun, hint, hrest⟩
    · obtain ⟨_, u, hskip, hloop⟩ := bind_ok_iff.1 hrest
      obtain ⟨v, hv, hitem, rfl⟩ := cborSkip_item hskip (labelLoop_lt hloop).le
      obtain ⟨es, key', hn, hat', hes, hint', hfound⟩ := ih hloop
      refine ⟨(key, v) :: es, key', Nat.succ_lt_succ hn, ?_, ?_, hint', ?_⟩
      · rw [entryBytes_cons]
        simp only [List.append_assoc]
        exact at_append_iff.2 ⟨hat, at_append_iff.2 ⟨hv, hat'⟩⟩
      · intro e he
        rcases List.mem_cons.1 he with rfl | he
        · exact ⟨⟨i, hlabel, hint⟩, hitem⟩
        · exact hes e he
      · rw [entryBytes_cons]
        simp only [List.append_assoc, List.length_append] at hfound ⊢
        rw [← hfound]
        congr 1
        omega

/-- A header map in which a search finds `a`, where what is found is the item `value`. -/
theorem HasLabel.of_labelLoop {α : Type} {label : Int} (found : Run Nat Unit α) {R : Bytes → α → Prop}
    (hfound : ∀ {p q : Nat} {a : α}, found p = (.ok a, q) → ∃ value, R value a ∧ At d p value) {a : α}
    (h : (do
      let b ← next d
      ensure (major b = 5) ()
      let mapLen ← cborReadUintArg d (additional b)
      labelLoop d label found mapLen : Run Nat Unit α).eval = .ok a) : ∃ value, HasLabel d label value ∧ R value a := by
  unfold Run.eval at h
  obtain ⟨b, t, hb, h₁⟩ := bind_fst_ok_iff.1 h
  obtain ⟨_, _, hens, h₂⟩ := bind_fst_ok_iff.1 h₁
  obtain ⟨hm, rfl⟩ := ensure_ok_iff.1 hens
  obtain ⟨mapLen, r, ha, h₃⟩ := bind_fst_ok_iff.1 h₂
  obtain ⟨hd, rfl, -, hat, rfl, rfl⟩ := cborHead_ok hb ha
  obtain ⟨es, key, hn, hes, hother, hint, hf⟩ := labelLoop_ok (Prod.ext h₃ rfl)
  obtain ⟨value, hR, hv⟩ := hfound hf
  have hall : At d 0 (hd.bytes ++ (entryBytes es ++ (key ++ value))) := by
    refine at_append_iff.2 ⟨hat, ?_⟩
    rw [← List.append_assoc]
    exact at_append_iff.2 ⟨hes, hv⟩
  obtain ⟨rest, hd'⟩ := at_zero_iff.1 hall
  exact ⟨value, ⟨hd, es, key, rest, hm, hn, hd', hother, hint⟩, hR⟩

/-- A text value that was read is a text item. -/
theorem readTextValue_ok {p q : Nat} {s : Bytes} (h : readTextValue d p = (.ok s, q)) : ∃ value, IsText value s ∧ At d p value := by
  simp only [readTextValue, bind_ok_iff, ensure_ok_iff, takeText_ok_iff] at h
  obtain ⟨b, t, hb, _, _, ⟨hm, rfl⟩, len, r, ha, hs, hl, -⟩ := h
  obtain ⟨hd, rfl, -, hat, rfl, rfl⟩ := cborHead_ok hb ha
  exact ⟨hd.bytes ++ s, ⟨hd, hm, hl, rfl⟩, at_append_iff.2 ⟨hat, hs⟩⟩

/-- The text found in a protected header is the value of its label. -/
theorem parseProtectedTstr_ok {header text : Bytes} {label : Int} (h : parseProtectedTstr header label = .ok text) :
    ∃ value, HasLabel header label value ∧ IsText value text := by
  refine HasLabel.of_labelLoop (readTextValue header) (R := IsText) readTextValue_ok ?_
  simpa only [parseProtectedTstr, parseProtectedTstrLoop_eq] using h

/-- Byte strings that were read one after the other stand there one after the other. -/
theorem collectN_cborReadBstr_ok {n p q : Nat} {ss : List Bytes} (hp : p ≤ d.length)
    (h : collectN n (cborReadBstr d) p = (.ok ss, q)) :
    ∃ xs : List Bytes, xs.length = n ∧ At d p xs.flatten ∧ List.Forall₂ IsBstr xs ss ∧ ∀ x ∈ xs, Item Head.Narrow x := by
  induction n generalizing p q ss with
  | zero =>
    obtain ⟨rfl, -⟩ := pure_ok_iff.1 h
    exact ⟨[], rfl, at_nil hp, .nil, nofun⟩
  | succ n ih =>
    simp only [collectN, bind_ok_iff, pure_ok_iff] at h
    obtain ⟨s, t, hs, ss', u, hrest, rfl, -⟩ := h
    obtain ⟨hd, hm, h27, hat, hl, rfl⟩ := cborReadBstr_ok hs
    obtain ⟨xs, hn, hxs, hall, hitems⟩ := ih hat.end_le hrest
    refine ⟨(hd.bytes ++ s) :: xs, by rw [List.length_cons, hn], ?_, .cons ⟨hd, hm, hl, rfl⟩ hall, ?_⟩
    · rw [List.flatten_cons]
      exact at_append_iff.2 ⟨hat, hxs⟩
    · intro x hx
      rcases List.mem_cons.1 hx with rfl | hx
      · exact Item.str hd s (.inr h27) (.inl hm) hl
      · exact hitems x hx

/-- An x5chain value that was parsed is an x5chain. -/
theorem parseX5chainValue_ok {p q : Nat} {certs : List Bytes} (h : parseX5chainValue d p = (.ok certs, q)) :
    ∃ value, IsX5chain value certs ∧ At d p value := by
  obtain ⟨b, t, hb, h⟩ := bind_ok_iff.1 h
  split_ifs at h with h4 h2
  · obtain ⟨n, r, ha, h⟩ := bind_ok_iff.1 h
    obtain ⟨hd, rfl, h27, hat, rfl, rfl⟩ := cborHead_ok hb ha
    obtain ⟨xs, hn, hxs, hall, hitems⟩ := collectN_cborReadBstr_ok hat.end_le h
    exact ⟨hd.bytes ++ xs.flatten, .inl ⟨xs, ⟨hd, .inr h27, h4, hn.symm, rfl, hitems⟩, hall⟩, at_append_iff.2 ⟨hat, hxs⟩⟩
  · simp only [bind_ok_iff, take_ok_iff, pure_ok_iff] at h
    obtain ⟨len, r, ha, der, _, ⟨hder, hl, -⟩, rfl, -⟩ := h
    obtain ⟨hd, rfl, -, hat, rfl, rfl⟩ := cborHead_ok hb ha
    exact ⟨hd.bytes ++ der, .inr ⟨der, rfl, hd, h2, hl, rfl⟩, at_append_iff.2 ⟨hat, hder⟩⟩
  · simp at h

/-- The certificates taken from an unprotected header are those of the x5chain of its label 33. -/
theorem extractX5chainFromUnprotected_ok {unprotected : Bytes} {certs : List Bytes}
    (h : extractX5chainFromUnprotected unprotected = .ok certs) :
    ∃ value, HasLabel unprotected coseLabelX5chain value ∧ IsX5chain value certs := by
  refine HasLabel.of_labelLoop (parseX5chainValue unprotected) (R := IsX5chain) parseX5chainValue_ok ?_
  simpa only [extractX5chainFromUnprotected, extractX5chainLoop_eq] using h

end FdoUefi
