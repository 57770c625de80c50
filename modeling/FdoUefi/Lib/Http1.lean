import FdoUefi.Lib.Bytes
import Mathlib.Data.List.DropRight
import Mathlib.Data.List.TakeDrop

/-!
# HTTP/1.1 requests

A server cuts what comes over a connection into requests: a request line, header fields up to an empty line, and a body of the
length that the only Content-Length announces. A request whose parts cannot be taken for the ends of lines is read as it was
written (`readRequest_bytes`), and what follows it is left for the next one.
-/

namespace Http1

open Prog

structure Request where
  method : Bytes
  target : Bytes
  fields : List (Bytes × Bytes)
  body : Bytes
  deriving DecidableEq, Repr

/-! ## Writing -/

def crlf : Bytes := [0x0D, 0x0A]

def fieldBytes (f : Bytes × Bytes) : Bytes := f.1 ++ utf8 ": " ++ f.2 ++ crlf

def Request.bytes (r : Request) : Bytes :=
  r.method ++ utf8 " " ++ r.target ++ utf8 " HTTP/1.1" ++ crlf ++ r.fields.flatMap fieldBytes ++ crlf ++ r.body

/-! ## Reading -/

/-- A line without its ending, and what follows it. -/
def readLine : Bytes → Option (Bytes × Bytes)
  | [] => none
  | b :: rest =>
    if crlf.isPrefixOf (b :: rest) then some ([], rest.tail)
    else (readLine rest).map fun line => (b :: line.1, line.2)

def isBlank (b : UInt8) : Bool := b = 0x20 || b = 0x09

/-- A value without the blanks around it. -/
def trimBlanks (v : Bytes) : Bytes := (v.dropWhile isBlank).rdropWhile isBlank

/-- A name and a value. -/
def readField (line : Bytes) : Option (Bytes × Bytes) :=
  match line.span (· ≠ 0x3A) with
  | (_, []) => none
  | (name, _ :: value) => if name ≠ [] ∧ name.all (0x20 < ·) then some (name, trimBlanks value) else none

/-- The fields up to an empty line, at most so many lines. -/
def readFields : Nat → Bytes → Option (List (Bytes × Bytes) × Bytes)
  | 0, _ => none
  | n + 1, d => do
    let (line, rest) ← readLine d
    if line = [] then return ([], rest)
    else
      let field ← readField line
      let (fields, rest) ← readFields n rest
      return (field :: fields, rest)

def lower (b : UInt8) : UInt8 := if 0x41 ≤ b ∧ b ≤ 0x5A then b + 0x20 else b

/-- The values of the fields with a name, which is given in lower case. -/
def valuesOf (name : Bytes) (fields : List (Bytes × Bytes)) : List Bytes :=
  (fields.filter fun f => f.1.map lower = name).map Prod.snd

/-- A number in decimal digits. -/
def decimal (v : Bytes) : Option Nat :=
  if v ≠ [] ∧ v.all (fun b => 0x30 ≤ b ∧ b ≤ 0x39) then some (v.foldl (fun n b => 10 * n + (b.toNat - 0x30)) 0) else none

/-- The length of the body. A request with several lengths, or with a transfer encoding, is refused. -/
def bodyLength (fields : List (Bytes × Bytes)) : Option Nat :=
  if valuesOf (utf8 "transfer-encoding") fields ≠ [] then none
  else
    match valuesOf (utf8 "content-length") fields with
    | [] => some 0
    | [v] => decimal v
    | _ => none

/-- The method and the target. -/
def readRequestLine (line : Bytes) : Option (Bytes × Bytes) :=
  match line.splitOn 0x20 with
  | [method, target, version] =>
    if method ≠ [] ∧ target ≠ [] ∧ version = utf8 "HTTP/1.1" then some (method, target) else none
  | _ => none

/-- A request, and what follows it. -/
def readRequest (d : Bytes) : Option (Request × Bytes) := do
  let (line, rest) ← readLine d
  let (method, target) ← readRequestLine line
  let (fields, rest) ← readFields (rest.length + 1) rest
  let n ← bodyLength fields
  if n ≤ rest.length then return (⟨method, target, fields, rest.take n⟩, rest.drop n) else none

/-- The byte is neither a carriage return nor null. -/
def isOrdinary (b : UInt8) : Bool := b ≠ 0x0D && b ≠ 0x00

/-- The request line and the fields have no bare carriage return and no null byte. -/
def Request.ordinary (r : Request) : Bool :=
  r.method.all isOrdinary && r.target.all isOrdinary && r.fields.all fun f => f.1.all isOrdinary && f.2.all isOrdinary

/-- A request as a strict server reads it, which refuses bare carriage returns and null bytes instead of replacing them. -/
def readStrict (d : Bytes) : Option (Request × Bytes) := (readRequest d).filter fun r => r.1.ordinary

/-! ## What is written is read -/

/-- The request as it is read: without the blanks around the values of its fields. -/
def Request.read (r : Request) : Request := { r with fields := r.fields.map fun f => (f.1, trimBlanks f.2) }

/-- Something without blanks and ends of lines. -/
def Visible (v : Bytes) : Prop := v ≠ [] ∧ ∀ b ∈ v, 0x20 < b

/-- No part of the request can be taken for the end of one, and the length announced is that of the body. -/
structure Request.Clean (r : Request) : Prop where
  method : Visible r.method
  target : Visible r.target
  names : ∀ f ∈ r.fields, Visible f.1 ∧ 0x3A ∉ f.1
  values : ∀ f ∈ r.fields, 0x0A ∉ f.2
  length : bodyLength r.read.fields = some r.body.length

section

variable {v line rest : Bytes}

/-- The bytes of a text, checked one by one. -/
theorem above_of_all (h : v.all (0x20 < ·) = true) : ∀ b ∈ v, 0x20 < b := by
  intro b hb
  exact of_decide_eq_true (List.all_eq_true.1 h b hb)

/-- Visibility of a text, checked byte by byte. -/
theorem visible_of_all (hne : v ≠ []) (h : v.all (0x20 < ·) = true) : Visible v := ⟨hne, above_of_all h⟩

/-- No blank and no control byte is in something visible. -/
theorem Visible.not_mem (h : Visible v) {b : UInt8} (hb : b ≤ 0x20) : b ∉ v := by
  intro hmem
  have hlt := UInt8.lt_iff_toNat_lt.1 (h.2 b hmem)
  have hle := UInt8.le_iff_toNat_le.1 hb
  omega

/-- Ordinary bytes are all but two. -/
theorem all_isOrdinary_iff : v.all isOrdinary = true ↔ 0x0D ∉ v ∧ 0x00 ∉ v := by
  rw [List.all_eq_true]
  constructor
  · intro h
    exact ⟨fun hmem => absurd (h _ hmem) (by decide), fun hmem => absurd (h _ hmem) (by decide)⟩
  · rintro ⟨hcr, hnull⟩ b hb
    have hcr' : b ≠ 0x0D := fun heq => hcr (heq ▸ hb)
    have hnull' : b ≠ 0x00 := fun heq => hnull (heq ▸ hb)
    simp [isOrdinary, hcr', hnull']

/-- What is visible is ordinary. -/
theorem Visible.ordinary (h : Visible v) : v.all isOrdinary = true :=
  all_isOrdinary_iff.2 ⟨h.not_mem (by decide), h.not_mem (by decide)⟩

/-- A byte that is not dropped is still there. -/
theorem mem_dropWhile_of_not {p : UInt8 → Bool} {b : UInt8} (hb : p b = false) : b ∈ v.dropWhile p ↔ b ∈ v := by
  induction v with
  | nil => rfl
  | cons a v ih =>
    by_cases ha : p a = true
    · have hne : b ≠ a := fun heq => by simp [heq, ha] at hb
      rw [List.dropWhile_cons_of_pos ha, ih, List.mem_cons, or_iff_right hne]
    · rw [List.dropWhile_cons_of_neg ha]

/-- Only blanks are taken off. -/
theorem mem_trimBlanks {b : UInt8} (hb : isBlank b = false) : b ∈ trimBlanks v ↔ b ∈ v := by
  rw [trimBlanks, List.rdropWhile, List.mem_reverse, mem_dropWhile_of_not hb, List.mem_reverse, mem_dropWhile_of_not hb]

/-- Blanks are ordinary, so taking them off makes no difference. -/
theorem trimBlanks_ordinary : (trimBlanks v).all isOrdinary = v.all isOrdinary := by
  have hblank : ∀ b, isOrdinary b = false → isBlank b = false := by
    intro b hb
    have hcases : b = 0x0D ∨ b = 0x00 := by
      by_contra hnot
      simp only [not_or] at hnot
      simp [isOrdinary, hnot.1, hnot.2] at hb
    rcases hcases with rfl | rfl <;> rfl
  rw [Bool.eq_iff_iff, List.all_eq_true, List.all_eq_true]
  constructor
  · intro h b hb
    by_contra hnot
    have hnot' : isOrdinary b = false := Bool.eq_false_iff.2 hnot
    exact hnot (h b ((mem_trimBlanks (hblank b hnot')).2 hb))
  · intro h b hb
    by_contra hnot
    have hnot' : isOrdinary b = false := Bool.eq_false_iff.2 hnot
    exact hnot (h b ((mem_trimBlanks (hblank b hnot')).1 hb))

/-- A field that says nothing about the length of the body. -/
def Plain (f : Bytes × Bytes) : Prop :=
  f.1.map lower ≠ utf8 "transfer-encoding" ∧ f.1.map lower ≠ utf8 "content-length"

/-- The values of two lists of fields are those of one after those of the other. -/
theorem valuesOf_append (name : Bytes) (a b : List (Bytes × Bytes)) :
    valuesOf name (a ++ b) = valuesOf name a ++ valuesOf name b := by
  rw [valuesOf, List.filter_append, List.map_append]
  rfl

/-- Fields with other names have no value for this one. -/
theorem valuesOf_eq_nil {name : Bytes} {fields : List (Bytes × Bytes)} (h : ∀ f ∈ fields, f.1.map lower ≠ name) :
    valuesOf name fields = [] := by
  rw [valuesOf, List.filter_eq_nil_iff.2 (by simpa using h), List.map_nil]

/-- A field with the name has its value. -/
theorem valuesOf_singleton {name : Bytes} {f : Bytes × Bytes} (h : f.1.map lower = name) : valuesOf name [f] = [f.2] := by
  simp [valuesOf, h]

/-- Fields that say nothing about the body announce none. -/
theorem bodyLength_of_plain {fields : List (Bytes × Bytes)} (h : ∀ f ∈ fields, Plain f) : bodyLength fields = some 0 := by
  have hcoding := valuesOf_eq_nil fun f hf => (h f hf).1
  have hlength := valuesOf_eq_nil fun f hf => (h f hf).2
  simp only [bodyLength, hcoding, hlength, ne_eq, not_true_eq_false, if_false]

/-- The only Content-Length decides. -/
theorem bodyLength_of_one {f : Bytes × Bytes} {a b : List (Bytes × Bytes)} (hf : f.1.map lower = utf8 "content-length")
    (ha : ∀ g ∈ a, Plain g) (hb : ∀ g ∈ b, Plain g) : bodyLength (a ++ [f] ++ b) = decimal f.2 := by
  have hne : f.1.map lower ≠ utf8 "transfer-encoding" := by
    rw [hf]
    decide
  have hcoding : valuesOf (utf8 "transfer-encoding") (a ++ [f] ++ b) = [] := by
    refine valuesOf_eq_nil fun g hg => ?_
    simp only [List.mem_append, List.mem_singleton] at hg
    rcases hg with (hg | rfl) | hg
    · exact (ha g hg).1
    · exact hne
    · exact (hb g hg).1
  have hlength : valuesOf (utf8 "content-length") (a ++ [f] ++ b) = [f.2] := by
    rw [valuesOf_append, valuesOf_append, valuesOf_eq_nil fun g hg => (ha g hg).2, valuesOf_eq_nil fun g hg => (hb g hg).2,
      valuesOf_singleton hf]
    rfl
  simp only [bodyLength, hcoding, hlength, ne_eq, not_true_eq_false, if_false]

/-- A line ends with the first line feed that is written behind it. -/
theorem readLine_append (h : 0x0A ∉ line) (rest : Bytes) : readLine (line ++ crlf ++ rest) = some (line, rest) := by
  induction line with
  | nil => rfl
  | cons b line ih =>
    have hline : 0x0A ∉ line := fun hmem => h (List.mem_cons_of_mem b hmem)
    have hnot : crlf.isPrefixOf (b :: (line ++ crlf ++ rest)) = false := by
      cases line with
      | nil => simp [crlf, List.isPrefixOf]
      | cons c line =>
        have hc : c ≠ 0x0A := fun hc => hline (hc ▸ List.mem_cons_self)
        simp [crlf, List.isPrefixOf, hc.symm]
    rw [List.cons_append, List.cons_append, readLine, hnot, ih hline]
    rfl

/-- A name ends at the first colon. -/
theorem span_append (h : 0x3A ∉ v) (rest : Bytes) : (v ++ 0x3A :: rest).span (· ≠ 0x3A) = (v, 0x3A :: rest) := by
  have hall : ∀ b ∈ v, decide (b ≠ 0x3A) = true := by
    intro b hb
    exact decide_eq_true fun heq => h (heq ▸ hb)
  rw [List.span_eq_takeWhile_dropWhile, List.takeWhile_append_of_pos hall, List.dropWhile_append_of_pos hall]
  simp

/-- There are no blanks around something visible. -/
theorem Visible.trimBlanks (h : Visible v) : Http1.trimBlanks v = v := by
  have hno : ∀ b ∈ v, isBlank b = false := by
    intro b hb
    have h1 : b ≠ 0x20 := fun heq => h.not_mem (UInt8.le_refl _) (heq ▸ hb)
    have h2 : b ≠ 0x09 := fun heq => h.not_mem (by decide) (heq ▸ hb)
    simp [isBlank, h1, h2]
  have hfront : v.dropWhile isBlank = v := by
    obtain ⟨b, rest, rfl⟩ := List.exists_cons_of_ne_nil h.1
    exact List.dropWhile_cons_of_neg (by simp [hno b List.mem_cons_self])
  rw [Http1.trimBlanks, hfront, List.rdropWhile_eq_self_iff]
  intro hne
  simp [hno _ (List.getLast_mem hne)]

/-- A blank in front is taken off. -/
theorem trimBlanks_cons : trimBlanks (0x20 :: v) = trimBlanks v := by
  rw [trimBlanks, trimBlanks, List.dropWhile_cons_of_pos (by decide)]

/-- A field is read as it was written, but for blanks around the value. -/
theorem readField_append {name value : Bytes} (hname : Visible name) (hcolon : 0x3A ∉ name) :
    readField (name ++ utf8 ": " ++ value) = some (name, trimBlanks value) := by
  have hsep : utf8 ": " = [0x3A, 0x20] := by decide
  have hline : name ++ utf8 ": " ++ value = name ++ 0x3A :: 0x20 :: value := by simp [hsep]
  have hall : name.all (0x20 < ·) = true := List.all_eq_true.2 fun b hb => decide_eq_true (hname.2 b hb)
  rw [readField, hline, span_append hcolon]
  exact (if_pos ⟨hname.1, hall⟩).trans (by rw [trimBlanks_cons])

/-- Fields are read as they were written, up to the empty line. -/
theorem readFields_flatMap (fields : List (Bytes × Bytes)) (hnames : ∀ f ∈ fields, Visible f.1 ∧ 0x3A ∉ f.1)
    (hvalues : ∀ f ∈ fields, 0x0A ∉ f.2) (rest : Bytes) {n : Nat} (hn : fields.length < n) :
    readFields n (fields.flatMap fieldBytes ++ crlf ++ rest) = some (fields.map fun f => (f.1, trimBlanks f.2), rest) := by
  induction fields generalizing n with
  | nil =>
    obtain ⟨n, rfl⟩ := Nat.exists_eq_succ_of_ne_zero (Nat.ne_of_gt hn)
    rfl
  | cons f fields ih =>
    obtain ⟨n, rfl⟩ := Nat.exists_eq_succ_of_ne_zero (Nat.ne_of_gt (Nat.zero_lt_of_lt hn))
    obtain ⟨hname, hcolon⟩ := hnames f List.mem_cons_self
    have hfeed : 0x0A ∉ f.1 ++ utf8 ": " ++ f.2 := by
      simp only [List.mem_append, not_or]
      exact ⟨⟨hname.not_mem (by decide), by decide⟩, hvalues f List.mem_cons_self⟩
    have hne : f.1 ++ utf8 ": " ++ f.2 ≠ [] := by simp [hname.1]
    have htail := ih (fun g hg => hnames g (List.mem_cons_of_mem f hg)) (fun g hg => hvalues g (List.mem_cons_of_mem f hg))
      (Nat.lt_of_succ_lt_succ hn)
    rw [List.flatMap_cons, fieldBytes, List.append_assoc, List.append_assoc, readFields, readLine_append hfeed]
    simp only [Option.bind_eq_bind, Option.bind_some, if_neg hne, readField_append hname hcolon]
    rw [← List.append_assoc, htail]
    rfl

/-- A field takes at least a byte. -/
theorem length_le_flatMap (fields : List (Bytes × Bytes)) : fields.length ≤ (fields.flatMap fieldBytes).length := by
  induction fields with
  | nil => exact le_rfl
  | cons f fields ih =>
    rw [List.flatMap_cons, List.length_append, List.length_cons, Nat.add_comm]
    have hpos : 0 < (fieldBytes f).length := by simp [fieldBytes, crlf]
    omega

/-- The method and the target are read as they were written. -/
theorem readRequestLine_append {method target : Bytes} (hmethod : Visible method) (htarget : Visible target) :
    readRequestLine (method ++ utf8 " " ++ target ++ utf8 " HTTP/1.1") = some (method, target) := by
  have hsplit : (method ++ utf8 " " ++ target ++ utf8 " HTTP/1.1").splitOn 0x20 = [method, target, utf8 "HTTP/1.1"] := by
    have hblank : utf8 " " = [0x20] := by decide
    have hversion : utf8 " HTTP/1.1" = 0x20 :: utf8 "HTTP/1.1" := by decide
    have hline : method ++ utf8 " " ++ target ++ utf8 " HTTP/1.1" =
        List.intercalate [0x20] [method, target, utf8 "HTTP/1.1"] := by simp [List.intercalate, hblank, hversion]
    rw [hline]
    refine List.splitOn_intercalate 0x20 ?_ (List.cons_ne_nil _ _)
    intro l hl
    simp only [List.mem_cons, List.not_mem_nil, or_false] at hl
    rcases hl with rfl | rfl | rfl
    · exact hmethod.not_mem (UInt8.le_refl _)
    · exact htarget.not_mem (UInt8.le_refl _)
    · decide
  rw [readRequestLine, hsplit]
  exact if_pos ⟨hmethod.1, htarget.1, rfl⟩

/-! ### Numbers -/

/-- The code of a digit. -/
theorem digit_range {c : Char} (h : c.isDigit = true) : 0x30 ≤ c.toNat ∧ c.toNat ≤ 0x39 := Char.isDigit_iff_toNat.1 h

/-- A digit is one byte. -/
theorem utf8EncodeChar_digit {c : Char} (h : c.isDigit = true) : String.utf8EncodeChar c = [UInt8.ofNat c.toNat] := by
  have hle : c.toNat ≤ 0x7F := (digit_range h).2.trans (by decide)
  rw [String.utf8EncodeChar]
  exact if_pos hle

/-- A number is written as its digits. -/
theorem utf8_toString (n : Nat) : utf8 (toString n) = (Nat.toDigits 10 n).map fun c => UInt8.ofNat c.toNat := by
  have hlist : (toString n).toList = Nat.toDigits 10 n := Nat.toList_repr
  rw [utf8, hlist, List.map_eq_flatMap]
  refine List.flatMap_congr fun c hc => utf8EncodeChar_digit ?_
  exact Nat.isDigit_of_mem_toDigits (by decide) le_rfl hc

/-- The byte of a digit is its code. -/
theorem toNat_digit {n : Nat} {c : Char} (hc : c ∈ Nat.toDigits 10 n) :
    (UInt8.ofNat c.toNat).toNat = c.toNat ∧ 0x30 ≤ c.toNat ∧ c.toNat ≤ 0x39 := by
  have hrange := digit_range (Nat.isDigit_of_mem_toDigits (by decide) le_rfl hc)
  refine ⟨?_, hrange⟩
  rw [UInt8.toNat_ofNat']
  omega

/-- A number is made of digits. -/
theorem toString_digits (n : Nat) : ∀ b ∈ utf8 (toString n), 0x30 ≤ b ∧ b ≤ 0x39 := by
  intro b hb
  rw [utf8_toString] at hb
  obtain ⟨c, hc, rfl⟩ := List.mem_map.1 hb
  obtain ⟨hbyte, hrange⟩ := toNat_digit hc
  rw [UInt8.le_iff_toNat_le, UInt8.le_iff_toNat_le, hbyte]
  exact hrange

/-- A number is visible. -/
theorem toString_visible (n : Nat) : Visible (utf8 (toString n)) := by
  refine ⟨?_, fun b hb => ?_⟩
  · rw [utf8_toString]
    simp
  · exact UInt8.lt_of_lt_of_le (by decide) (toString_digits n b hb).1

/-- A number is read as it was printed. -/
theorem decimal_toString (n : Nat) : decimal (utf8 (toString n)) = some n := by
  have hvalue : (utf8 (toString n)).foldl (fun n b => 10 * n + (b.toNat - 0x30)) 0 = n := by
    rw [utf8_toString, List.foldl_map]
    refine (List.foldl_ext _ _ 0 fun m c hc => ?_).trans Nat.ofDigitChars_ten_toDigits
    rw [(toNat_digit hc).1]
    rfl
  have hdigits : (utf8 (toString n)).all (fun b => 0x30 ≤ b ∧ b ≤ 0x39) = true :=
    List.all_eq_true.2 fun b hb => decide_eq_true (toString_digits n b hb)
  rw [decimal, if_pos ⟨(toString_visible n).1, hdigits⟩, hvalue]

/-- A clean request is read as it was written, and what follows it is left. -/
theorem readRequest_bytes {r : Request} (h : r.Clean) (rest : Bytes) : readRequest (r.bytes ++ rest) = some (r.read, rest) := by
  have hfeed : 0x0A ∉ r.method ++ utf8 " " ++ r.target ++ utf8 " HTTP/1.1" := by
    simp only [List.mem_append, not_or]
    exact ⟨⟨⟨h.method.not_mem (by decide), by decide⟩, h.target.not_mem (by decide)⟩, by decide⟩
  have hbytes : r.bytes ++ rest = r.method ++ utf8 " " ++ r.target ++ utf8 " HTTP/1.1" ++ crlf ++
      (r.fields.flatMap fieldBytes ++ crlf ++ (r.body ++ rest)) := by
    simp only [Request.bytes, List.append_assoc]
  have hcount : r.fields.length < (r.fields.flatMap fieldBytes ++ crlf ++ (r.body ++ rest)).length + 1 := by
    have hle := length_le_flatMap r.fields
    simp only [List.length_append]
    omega
  rw [readRequest, hbytes, readLine_append hfeed]
  simp only [Option.bind_eq_bind, Option.bind_some, readRequestLine_append h.method h.target,
    readFields_flatMap r.fields h.names h.values (r.body ++ rest) hcount]
  have hlength : bodyLength (r.fields.map fun f => (f.1, trimBlanks f.2)) = some r.body.length := h.length
  rw [hlength, Option.bind_some, if_pos (by simp), List.take_left, List.drop_left]
  rfl

/-- A strict server reads a clean request if the values of its fields have nothing in them that it refuses. -/
theorem readStrict_bytes {r : Request} (h : r.Clean) (rest : Bytes) :
    readStrict (r.bytes ++ rest) = some (r.read, rest) ↔ ∀ f ∈ r.fields, f.2.all isOrdinary = true := by
  have hmethod : r.read.method.all isOrdinary = true := h.method.ordinary
  have htarget : r.read.target.all isOrdinary = true := h.target.ordinary
  have hfields : r.read.ordinary = true ↔ ∀ f ∈ r.fields, f.2.all isOrdinary = true := by
    rw [Request.ordinary, hmethod, htarget, Bool.true_and, Bool.true_and, Request.read, List.all_map, List.all_eq_true]
    refine forall₂_congr fun f hf => ?_
    rw [Function.comp_apply, (h.names f hf).1.ordinary, Bool.true_and, trimBlanks_ordinary]
  rw [readStrict, readRequest_bytes h, Option.filter_eq_some_iff, ← hfields]
  simp

end

end Http1
