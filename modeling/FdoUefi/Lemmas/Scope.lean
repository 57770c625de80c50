import FdoUefi.Lemmas.CoseReaders

/-!
# Scope constraints: what the parsers see of a map

`extract_tstr_keyed_value`, `evaluate_bmo_scope` and `evaluate_scope_guid` share one cursor. The lemmas say, for the entries
of a CBOR map, when each of them stays on the boundaries between entries and what it then answers.
-/

namespace FdoUefi

open Prog Prog.Run Cbor

/-- The value is the GUID, or an array of byte strings one of which is the GUID. -/
def GuidValue (g v : Bytes) : Prop :=
  IsBstr v g ∨ ∃ xs, IsArray Head.Rfc v xs ∧ (∀ x ∈ xs, ∃ s, IsBstr x s) ∧ ∃ x ∈ xs, IsBstr x g

/-- The entry is the text key `guid` with a value that admits the GUID. -/
def GuidEntry (g : Bytes) (m : Bytes × Bytes) : Prop := IsText m.1 (utf8 "guid") ∧ GuidValue g m.2

variable {d : Bytes} {p : Nat}

/-! ## Single items -/

/-- An item with narrow heads is skipped. -/
theorem cborSkip_of_narrow {u : Bytes} (hat : At d p u) (hu : Item Head.Narrow u) :
    cborSkip d p = (.ok (), p + u.length) := by
  have hend := hat.end_le
  rcases cborSkipTo_of_item (d.length + 1) hat hu (by omega) with h | ⟨-, k, hk, hn⟩
  · exact h
  · exact absurd hk hn

/-- An array in which the GUID stands only where the cursor is not lost: at the end of the array, or, in the last entry of the
scope map, with nothing but byte strings after it. -/
def GuidArraySynced (g v : Bytes) (last : Prop) : Prop :=
  ∀ xs ys x zs, IsArray Head.Rfc v xs → xs = ys ++ x :: zs → IsBstr x g → zs = [] ∨ last ∧ ∀ z ∈ zs, ∃ s, IsBstr z s

/-- The entries of a scope map on which the loop keeps to the boundaries: up to the first entry that does not admit the GUID,
every key is a text, and no array of GUIDs leaves the cursor inside itself. -/
def ScopeSynced (g : Bytes) (ms : List (Bytes × Bytes)) : Prop :=
  ∀ as m bs, ms = as ++ m :: bs → (∀ x ∈ as, GuidEntry g x) →
    (∃ s, IsText m.1 s) ∧ (IsText m.1 (utf8 "guid") → GuidArraySynced g m.2 (bs = []))

/-- Behind an entry that is decided the scan is still in step. -/
theorem ScopeSynced.tail {g : Bytes} {m : Bytes × Bytes} {ms : List (Bytes × Bytes)} (h : ScopeSynced g (m :: ms))
    (hm : GuidEntry g m) : ScopeSynced g ms := by
  intro as x bs heq has
  refine h (m :: as) x bs (by rw [heq, List.cons_append]) ?_
  intro y hy
  rcases List.mem_cons.1 hy with rfl | hy
  · exact hm
  · exact has y hy

end FdoUefi
