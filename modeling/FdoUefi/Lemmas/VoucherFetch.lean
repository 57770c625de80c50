import FdoUefi.Lemmas.RoundTrip
import FdoUefi.Lemmas.To2
import FdoUefi.Lib.Yields

/-!
# Fetching the entries of a voucher

The number of entries is announced in ProveOVHdr20, and the entries are asked for one by one. What a request must look like, what
an honest Owner answers, and what `parse_prove_ov_hdr_payload` and the fetch loop make of it.
-/

namespace FdoUefi

open Prog Prog.Run Prog.Cur Cbor

/-- ProveOVHdr20 with this payload announces `n` entries: the second element of the array. -/
def Announces (payload : Bytes) (n : Nat) : Prop :=
  ∃ (ah oh nh : Head) (ovHeader rest : Bytes), ah.IsMajor 4 ∧ additional ah.initial < 28 ∧ oh.IsMajor 2 ∧
    additional oh.initial < 28 ∧ ovHeader.length = oh.arg ∧ nh.IsMajor 0 ∧ additional nh.initial < 28 ∧ nh.arg = n ∧
    payload = ah.bytes ++ ((oh.bytes ++ ovHeader) ++ (nh.bytes ++ rest))

/-- The CBOR array `[i]`. -/
def IsEntryRequest (body : Bytes) (i : Nat) : Prop := ∃ x, IsArray Head.Rfc body [x] ∧ IsInt x i

/-- The CBOR array `[i, entry]`. -/
def IsEntryReply (body : Bytes) (i : Nat) (entry : Bytes) : Prop :=
  ∃ x y, IsArray Head.Rfc body [x, y] ∧ IsInt x i ∧ IsBstr y entry

/-- Whatever has happened before, the Owner answers `[i]` with `[i, entry i]`. -/
def HonestOwner (w : World) (args : To2Args) (token : Option Bytes) (ovEntries : List Bytes) : Prop :=
  ∀ past i entry body, ovEntries[i]? = some entry → IsEntryRequest body i →
    ∃ resp, w.post past (messageUrl args.ownerUrl msgTo2GetOvNextEntry) msgTo2GetOvNextEntry body token = some resp ∧
      resp.messageType ≠ some msgError ∧ resp.body.length ≤ sliceMax ∧ IsEntryReply resp.body i entry

/-- The event in which a request is sent. -/
def entryRequest (args : To2Args) (token : Option Bytes) (body : Bytes) (answer : Option HttpPostResponse) : To2Event :=
  .post (messageUrl args.ownerUrl msgTo2GetOvNextEntry) msgTo2GetOvNextEntry body token answer

/-! ## The announced number -/

/-- A payload as the encoder of the client would write it. -/
theorem announces_enc {ovHeader rest : Bytes} {n : Nat} (hheader : ovHeader.length < 2 ^ 16) (hn : n < 2 ^ 16) :
    Announces (Enc.array 8 ++ Enc.bytes ovHeader ++ Enc.uint n ++ rest) n := by
  obtain ⟨ah, hab, ham, -, ha26⟩ := encHead_head (m := 4) (n := 8) (by omega)
  obtain ⟨oh, hob, hom, hoarg, ho26⟩ := encHead_head (m := 2) (n := ovHeader.length) (by omega)
  obtain ⟨nh, hnb, hnm, hnarg, hn26⟩ := encHead_head (m := 0) (n := n) (by omega)
  refine ⟨ah, oh, nh, ovHeader, rest, ham, by omega, hom, by omega, by omega, hnm, by omega, by omega, ?_⟩
  rw [Enc.array, Enc.bytes, Enc.uint, hab, hob, hnb]
  simp only [List.append_assoc]

/-- The announced number is cut to eight bits. -/
theorem numOvEntries_eq {fuel n : Nat} {payload : Bytes} {proveOv : To2ProveOvHdr20Payload} (hfits : payload.length ≤ sliceMax)
    (hn : Announces payload n) (h : Dec.eval (parseProveOvHdrPayload fuel payload) = .ok proveOv) :
    proveOv.numOvEntries = n % 2 ^ 8 := by
  obtain ⟨ah, oh, nh, ovHeader, rest, ham, ha28, hom, ho28, hlen, hnm, hn28, rfl, hpay⟩ := hn
  have hat : At payload 0 (ah.bytes ++ ((oh.bytes ++ ovHeader) ++ (nh.bytes ++ rest))) := at_zero_iff.2 ⟨[], by simp [hpay]⟩
  obtain ⟨ha, hrest⟩ := at_append_iff.1 hat
  obtain ⟨ho, hrest'⟩ := at_append_iff.1 hrest
  obtain ⟨hnat, -⟩ := at_append_iff.1 hrest'
  have hend := hnat.end_le
  have hword : ∀ {q : Nat}, q ≤ payload.length → q < wordSize := fun hq => by
    unfold sliceMax at hfits
    unfold wordSize
    omega
  obtain ⟨u, hrun⟩ : ∃ u, parseProveOvHdrPayload fuel payload Cur.start = (.ok proveOv, u) := ⟨_, eq_of_fst h⟩
  unfold parseProveOvHdrPayload at hrun
  obtain ⟨arrLen, _, harr, h₁⟩ := bind_ok_iff.1 hrun
  obtain ⟨_, c₁, hens, h₂⟩ := bind_ok_iff.1 h₁
  obtain ⟨-, rfl⟩ := ensure_ok_iff.1 hens
  obtain ⟨header, c₂, hheader, h₃⟩ := bind_ok_iff.1 h₂
  obtain ⟨num, c₃, hnum, hrest₃⟩ := bind_ok_iff.1 h₃
  -- The fields behind it leave the number as it is.
  have hkept : proveOv.numOvEntries = num % 2 ^ 8 := by
    refine (?_ : Yields _ fun proveOv : To2ProveOvHdr20Payload => proveOv.numOvEntries = num % 2 ^ 8) _ _ _ hrest₃
    refine .next fun _ => .next fun _ => .next fun _ => .next fun _ => .next fun _ => .next fun _ => .next fun _ => ?_
    exact .next fun _ => .next fun _ => .next fun _ => .next fun _ => .next fun _ => .next fun _ => .next fun _ => .pure rfl
  have hc₁ : c₁.pos = 0 + ah.bytes.length := (Reads.eq (readHead_reads ha ham ha28 (hword ha.end_le)) harr).2
  rw [← hc₁] at ho hnat
  have hc₂ : c₂.pos = c₁.pos + (oh.bytes ++ ovHeader).length :=
    (Reads.eq (readBytes_reads ho hom ho28 hlen (hword ho.end_le)) hheader).2
  rw [← hc₂] at hnat
  have hnum' : num = nh.arg := (Reads.eq (readHead_reads hnat hnm hn28 (hword hnat.end_le)) hnum).1
  rw [hkept, hnum']

/-! ## Requests and replies -/

/-- Up to 23 the index is the array it should be. -/
theorem buildTo2GetOvNextEntry_request {i : Nat} (hi : i < 24) : IsEntryRequest (buildTo2GetOvNextEntry i) i := by
  obtain ⟨ah, hab, ham, haarg, ha26⟩ := encHead_head (m := 4) (n := 1) (by omega)
  obtain ⟨ih, hib, him, hiarg, hi26⟩ := encHead_head (m := 0) (n := i) (by omega)
  have hidx : [UInt8.ofNat i] = ih.bytes := by
    rw [← hib, Enc.head, if_pos hi, Nat.zero_mul, Nat.zero_add]
  have hitem : Item Head.Rfc ih.bytes := Item.int ih (Head.rfc_of_major_lt him (by omega) (by omega)) (.inl him)
  refine ⟨ih.bytes, ⟨ah, Head.rfc_of_major_lt ham (by omega) (by omega), ham, haarg, ?_, ?_⟩, ih,
    .inl ⟨him, by rw [hiarg]; omega⟩, rfl⟩
  · rw [buildTo2GetOvNextEntry, Enc.array, hab, hidx]
    simp
  · intro x hx
    rw [List.mem_singleton.1 hx]
    exact hitem

/-- The index 24 is the head of an argument that is not there. -/
theorem buildTo2GetOvNextEntry_24 (i : Nat) : ¬IsEntryRequest (buildTo2GetOvNextEntry 24) i := by
  rintro ⟨x, ⟨ah, -, ham, haarg, hbody, -⟩, ih, -, hx⟩
  have hlen := congrArg List.length hbody
  have hab := ah.bytes_length
  have hib := ih.bytes_length
  have hbytes : buildTo2GetOvNextEntry 24 = [0x81, 0x18] := by decide +kernel
  rw [hbytes] at hbody hlen
  subst hx
  obtain ⟨hinit, htail⟩ := List.cons.inj hbody
  simp only [List.flatten_cons, List.flatten_nil, List.append_nil, List.length_append, List.length_cons, List.length_nil]
    at hlen
  have hext : extLen (additional ah.initial) = 0 := by omega
  have hnil : ah.tail = [] := List.length_eq_zero_iff.1 (ah.tail_length.trans hext)
  rw [hnil] at htail
  have hi0 : ih.initial = 0x18 := by
    simp only [List.flatten_cons, List.flatten_nil, List.append_nil, Head.bytes] at htail
    exact (List.cons.inj htail).1.symm
  have h24 : extLen (additional ih.initial) = 1 := by
    rw [hi0]
    rfl
  omega

/-- A reply as the encoder of the client would write it. -/
theorem isEntryReply_enc {i : Nat} {entry : Bytes} (hi : i < 2 ^ 16) (hentry : entry.length < 2 ^ 16) :
    IsEntryReply (Enc.array 2 ++ Enc.uint i ++ Enc.bytes entry) i entry := by
  obtain ⟨ah, hab, ham, haarg, ha26⟩ := encHead_head (m := 4) (n := 2) (by omega)
  obtain ⟨ih, hib, him, hiarg, hi26⟩ := encHead_head (m := 0) (n := i) (by omega)
  obtain ⟨bh, hbb, hbm, hbarg, hb26⟩ := encHead_head (m := 2) (n := entry.length) (by omega)
  have hint : Item Head.Rfc ih.bytes := Item.int ih (Head.rfc_of_major_lt him (by omega) (by omega)) (.inl him)
  have hstr : Item Head.Rfc (bh.bytes ++ entry) :=
    Item.str bh entry (Head.rfc_of_major_lt hbm (by omega) (by omega)) (.inl hbm) (by omega)
  refine ⟨ih.bytes, bh.bytes ++ entry, ⟨ah, Head.rfc_of_major_lt ham (by omega) (by omega), ham, haarg, ?_, ?_⟩,
    ⟨ih, .inl ⟨him, by rw [hiarg]; omega⟩, rfl⟩, bh, hbm, by omega, rfl⟩
  · rw [Enc.array, Enc.uint, Enc.bytes, hab, hib, hbb]
    simp
  · intro x hx
    rcases List.mem_cons.1 hx with rfl | hx
    · exact hint
    · rw [List.mem_singleton.1 hx]
      exact hstr

/-- A reply to a request is read as its entry. -/
theorem parseOvNextEntry_reply {body entry : Bytes} {i : Nat} (hi : i < 256) (hfits : body.length ≤ sliceMax)
    (h : IsEntryReply body i entry) : Dec.eval (parseOvNextEntry i body) = .ok entry := by
  obtain ⟨x, y, ⟨ah, harfc, ham, haarg, hbody, hitems⟩, ⟨ih, hint, rfl⟩, bh, hbm, hblen, rfl⟩ := h
  simp only [List.flatten_cons, List.flatten_nil, List.append_nil] at hbody
  have hat : At body 0 (ah.bytes ++ (ih.bytes ++ (bh.bytes ++ entry))) := at_zero_iff.2 ⟨[], by simp [hbody]⟩
  obtain ⟨ha, hrest⟩ := at_append_iff.1 hat
  obtain ⟨hi', hb⟩ := at_append_iff.1 hrest
  have hword : ∀ {q : Nat}, q ≤ body.length → q < wordSize := fun hq => by
    unfold sliceMax at hfits
    unfold wordSize
    omega
  have hrfc : ∀ {hd : Head} {u : Bytes}, hd.bytes ++ u ∈ [ih.bytes, bh.bytes ++ entry] → additional hd.initial < 28 := by
    intro hd u hmem
    obtain ⟨hd', rest, hp, heq, -⟩ := (hitems _ hmem).exists_head
    rw [(Head.append_inj heq).1]
    exact hp.1
  have hi28 : additional ih.initial < 28 := hrfc (u := []) (by simp)
  have hb28 : additional bh.initial < 28 := hrfc (u := entry) (by simp)
  have him : ih.IsMajor 0 ∧ ih.arg = i := by
    rcases hint with ⟨hm, heq⟩ | ⟨-, heq⟩
    · exact ⟨hm, by omega⟩
    · omega
  have hread : Reads (parseOvNextEntry i body) 0 entry (0 + ah.bytes.length + ih.bytes.length + (bh.bytes ++ entry).length) := by
    refine (readHead_reads ha ham harfc.1 (hword ha.end_le)).bind (.ensure (by simpa using haarg) ?_)
    have hidx : Reads (Dec.readU8 body) (0 + ah.bytes.length) i (0 + ah.bytes.length + ih.bytes.length) := by
      refine (readHead_reads hi' him.1 hi28 (hword hi'.end_le)).bind ?_
      rw [him.2, Nat.mod_eq_of_lt hi]
      exact .pure i
    refine hidx.bind ((readBytes_reads hb hbm hb28 hblen (hword hb.end_le)).bind (.ensure rfl (.pure entry)))
  obtain ⟨log', heq⟩ := hread []
  exact congrArg Prod.fst heq

/-! ## The loop -/

variable {w : World} {args : To2Args} {token : Option Bytes} {s t : To2State}

/-- The events of a fetch are the requests for its indices. -/
theorem EntriesFetched.requests {entryNum : Nat} {events : List To2Event} {ovEntries : List Bytes}
    (h : EntriesFetched args token entryNum events ovEntries) {k : Nat} {e : To2Event} (he : events[k]? = some e) :
    ∃ answer, e = entryRequest args token (buildTo2GetOvNextEntry (entryNum + k)) answer := by
  induction h generalizing k with
  | nil => simp at he
  | @cons entryNum resp entry events ovEntries hentry hrest ih =>
    cases k with
    | zero =>
      rw [List.getElem?_cons_zero, Option.some.injEq] at he
      exact ⟨some resp, he.symm⟩
    | succ k =>
      rw [List.getElem?_cons_succ] at he
      obtain ⟨answer, heq⟩ := ih he
      exact ⟨answer, by rw [heq]; congr 2; omega⟩

/-- There is one request for each entry. -/
theorem EntriesFetched.length_eq {entryNum : Nat} {events : List To2Event} {ovEntries : List Bytes}
    (h : EntriesFetched args token entryNum events ovEntries) : events.length = ovEntries.length := by
  induction h with
  | nil => rfl
  | cons _ _ ih => rw [List.length_cons, List.length_cons, ih]

/-- A response that is not an error message is what an exchange returns. -/
theorem exchange_of_post {msgType : Nat} {body : Bytes} {failed context : String} {resp : HttpPostResponse}
    (hpost : w.post s.trace (messageUrl args.ownerUrl msgType) msgType body token = some resp)
    (hmsg : resp.messageType ≠ some msgError) :
    exchange w args msgType body token failed context s =
      (.ok resp, s.add (.post (messageUrl args.ownerUrl msgType) msgType body token (some resp))) := by
  have hcall : httpPostWithSession w (messageUrl args.ownerUrl msgType) body msgType token failed s =
      (.ok resp, s.add (.post (messageUrl args.ownerUrl msgType) msgType body token (some resp))) := by
    simp only [httpPostWithSession, askFor, bind_ok_iff, Aux.ask_ok_iff, orFail_ok_iff]
    exact ⟨some resp, _, ⟨hpost.symm, rfl⟩, rfl, rfl⟩
  have hcheck : Dec.eval (checkFdoError resp.messageType resp.body (utf8 context)) = .ok () := by
    rw [checkFdoError, if_pos hmsg]
    rfl
  rw [exchange, bind_of_ok hcall, bind_of_ok (ofOutcome_ok_iff.2 ⟨hcheck, rfl⟩)]
  rfl

/-- An honest Owner's entries come back in order, as long as the indices are below 24. -/
theorem fetchOvEntries_honest {all : List Bytes} (hw : HonestOwner w args token all) {entryNum : Nat} {ovEntries : List Bytes}
    (hdrop : all.drop entryNum = ovEntries) (hshort : entryNum + ovEntries.length ≤ 24) (s : To2State) :
    ∃ t, fetchOvEntries w args token ovEntries.length entryNum s = (.ok ovEntries, t) := by
  induction ovEntries generalizing entryNum s with
  | nil => exact ⟨s, rfl⟩
  | cons entry rest ih =>
    rw [List.length_cons] at hshort
    have hentry : all[entryNum]? = some entry := by
      have := congrArg (fun l => l[0]?) hdrop
      simpa using this
    have hrest : all.drop (entryNum + 1) = rest := by
      have := congrArg List.tail hdrop
      simpa using this
    obtain ⟨resp, hpost, hmsg, hfits, hreply⟩ :=
      hw s.trace entryNum entry _ hentry (buildTo2GetOvNextEntry_request (by omega))
    have hexchange : exchange w args msgTo2GetOvNextEntry (buildTo2GetOvNextEntry entryNum) token "GetOVNextEntry failed"
        "TO2.OVNextEntry" s = (.ok resp, s.add (entryRequest args token (buildTo2GetOvNextEntry entryNum) (some resp))) :=
      exchange_of_post hpost hmsg
    obtain ⟨t, ht⟩ := ih hrest (by omega) (s.add (entryRequest args token (buildTo2GetOvNextEntry entryNum) (some resp)))
    refine ⟨t, ?_⟩
    rw [List.length_cons, fetchOvEntries, bind_of_ok hexchange,
      bind_of_ok (ofOutcome_ok_iff.2 ⟨parseOvNextEntry_reply (by omega) hfits hreply, rfl⟩), bind_of_ok ht]
    rfl

end FdoUefi
