import FdoUefi.Lemmas.Dns

/-!
# Names in DNS packets

`skip_dns_name` and `decode_dns_name` agree and come back on every packet, and no reader of a response looks behind its end. The
encoder and the decoder are inverse exactly on the host names whose labels have at most 63 bytes; of a longer label only the start
is asked for.
-/

namespace FdoUefi

open Prog

/-- On every packet and from every place: both loops come back, the one ends where the other does, and no index of the readers of
responses is out of range. -/
theorem skipDnsName_eq_decodeDnsName (data : Bytes) (pos expectedId : Nat) :
    skipDnsName data pos = (decodeDnsName data pos >>= fun r => (.ok r.2 : Outcome Unit Nat)) ∧
      (skipDnsName data pos).Returns ∧ (decodeDnsName data pos).Returns ∧ (parseDnsResponse data expectedId).Returns ∧
      (extractCnameTarget data expectedId).Returns :=
  ⟨Aux.skipDnsName_eq data pos, Aux.skipDnsName_returns data pos, Aux.decodeDnsName_returns data pos,
    Aux.parseDnsResponse_returns data expectedId, Aux.extractCnameTarget_returns data expectedId⟩

/-- A label and a pointer to another one. -/
example : decodeDnsName [0x01, 0x61, 0xC0, 0x05, 0xFF, 0x01, 0x62, 0x00] 0 = .ok ([0x61, 0x2E, 0x62], 4) := by decide

/-! ## Host names -/

/-- A label of a host name. -/
structure DnsLabel where
  bytes : Bytes
  nonempty : bytes ≠ []
  ascii : ∀ b ∈ bytes, b < 0x80
  undotted : 0x2E ∉ bytes

/-- A host name: labels of any length. -/
structure HostName where
  labels : List DnsLabel
  nonempty : labels ≠ []

namespace HostName

/-- The labels, separated by single dots. -/
def text (h : HostName) : Bytes := [0x2E].intercalate (h.labels.map DnsLabel.bytes)

/-- No label has more than 63 bytes. -/
def Short (h : HostName) : Prop := ∀ l ∈ h.labels, l.bytes.length ≤ 63

/-- Whatever comes behind its encoding, the name and the length of the encoding are read back. -/
def RoundTrips (h : HostName) : Prop :=
  ∀ suffix, decodeDnsName (encodeDnsName h.text ++ suffix) 0 = .ok (h.text, (encodeDnsName h.text).length)

end HostName

/-- The first 63 bytes of a label. -/
def DnsLabel.truncate (l : DnsLabel) : DnsLabel where
  bytes := l.bytes.take 63
  nonempty := by
    have hl := l.nonempty
    simp [hl]
  ascii b hb := l.ascii b (List.mem_of_mem_take hb)
  undotted h := l.undotted (List.mem_of_mem_take h)

/-- What a query for a host name asks for. -/
def HostName.truncate (h : HostName) : HostName where
  labels := h.labels.map DnsLabel.truncate
  nonempty := by
    have hl := h.nonempty
    simp [hl]

namespace Aux

/-! ### The encoding -/

/-- A host name is split into its labels. -/
theorem splitOn_text (h : HostName) : h.text.splitOn 0x2E = h.labels.map DnsLabel.bytes := by
  refine List.splitOn_intercalate 0x2E ?_ ?_
  · intro bytes hbytes
    obtain ⟨l, -, rfl⟩ := List.mem_map.1 hbytes
    exact l.undotted
  · have hl := h.nonempty
    simp [hl]

/-- A host name is encoded label by label. -/
theorem encodeDnsName_text (h : HostName) :
    encodeDnsName h.text = (h.labels.map DnsLabel.bytes).flatMap encodeDnsLabel ++ [0x00] := by
  rw [encodeDnsName, splitOn_text]

/-- A label is encoded as its first 63 bytes. -/
theorem encodeDnsLabel_truncate (l : DnsLabel) : encodeDnsLabel l.truncate.bytes = encodeDnsLabel l.bytes := by
  unfold encodeDnsLabel
  rw [if_neg l.truncate.nonempty, if_neg l.nonempty]
  by_cases hlong : 63 < l.bytes.length
  · have hlen : (l.bytes.take 63).length = 63 := by
      rw [List.length_take]
      omega
    show (if 63 < (l.bytes.take 63).length then _ else UInt8.ofNat (l.bytes.take 63).length :: l.bytes.take 63) = _
    rw [hlen, if_neg (by omega), if_pos hlong]
    rfl
  · have htake : l.truncate.bytes = l.bytes := List.take_of_length_le (by omega)
    rw [htake]

/-- A host name and what is left of it are encoded alike. -/
theorem encodeDnsName_truncate (h : HostName) : encodeDnsName h.truncate.text = encodeDnsName h.text := by
  have hlabels : ((h.labels.map DnsLabel.truncate).map DnsLabel.bytes).flatMap encodeDnsLabel =
      (h.labels.map DnsLabel.bytes).flatMap encodeDnsLabel := by
    simp only [List.flatMap_map, encodeDnsLabel_truncate]
  rw [encodeDnsName_text, encodeDnsName_text, ← hlabels]
  rfl

/-- What is left of a name is short. -/
theorem truncate_short (h : HostName) : h.truncate.Short := by
  intro l hl
  obtain ⟨l', -, rfl⟩ := List.mem_map.1 hl
  exact List.length_take_le _ _

/-- Different host names have different texts. -/
theorem short_of_truncate_text (h : HostName) (heq : h.truncate.text = h.text) : h.Short := by
  have hlabels : (h.labels.map DnsLabel.truncate).map DnsLabel.bytes = h.labels.map DnsLabel.bytes := by
    rw [← splitOn_text h, ← heq]
    exact (splitOn_text h.truncate).symm
  rw [List.map_map] at hlabels
  intro l hl
  have hlen := congrArg List.length (List.map_inj_left.1 hlabels l hl)
  have htake : (l.bytes.take 63).length = l.bytes.length := hlen
  rw [List.length_take] at htake
  omega

/-! ### The decoding -/

/-- Labels behind a name. -/
def appendLabels (name : Bytes) (labels : List DnsLabel) : Bytes :=
  (labels.map DnsLabel.bytes).foldl pushLabel name

/-- ASCII bytes are characters of one byte. -/
theorem flatMap_latin1 {bytes : Bytes} (h : ∀ b ∈ bytes, b < 0x80) : bytes.flatMap latin1 = bytes := by
  induction bytes with
  | nil => rfl
  | cons b bytes ih =>
    rw [List.flatMap_cons, ih fun c hc => h c (by simp [hc]), latin1, if_pos (h b (by simp))]
    rfl

/-- A label behind others comes after a dot. -/
theorem pushLabel_of_ne_nil {name : Bytes} (hname : name ≠ []) (l : DnsLabel) :
    pushLabel name l.bytes = name ++ 0x2E :: l.bytes := by
  rw [pushLabel, if_neg hname, flatMap_latin1 l.ascii, List.append_assoc]
  rfl

/-- Several labels behind others come after a dot. -/
theorem appendLabels_of_ne_nil {name : Bytes} (hname : name ≠ []) (labels : List DnsLabel) :
    appendLabels name labels = name ++ labels.flatMap fun l => 0x2E :: l.bytes := by
  induction labels generalizing name with
  | nil => simp [appendLabels]
  | cons l labels ih =>
    have hpush := pushLabel_of_ne_nil hname l
    show appendLabels (pushLabel name l.bytes) labels = _
    rw [hpush, ih (by simp), List.append_assoc]
    rfl

/-- Labels joined by dots are the first one and the others behind dots. -/
theorem intercalate_eq (bytes : Bytes) (rest : List Bytes) :
    [0x2E].intercalate (bytes :: rest) = bytes ++ rest.flatMap fun l => 0x2E :: l := by
  induction rest generalizing bytes with
  | nil => simp
  | cons r rest ih =>
    rw [List.intercalate_cons_cons, ih r]
    simp

/-- The labels of a host name, one after the other, are its text. -/
theorem appendLabels_eq_text (h : HostName) : appendLabels [] h.labels = h.text := by
  obtain ⟨l, labels, hl⟩ := List.exists_cons_of_ne_nil h.nonempty
  rw [HostName.text, hl, List.map_cons, intercalate_eq, List.flatMap_map]
  show appendLabels (pushLabel [] l.bytes) labels = _
  have hfirst : pushLabel [] l.bytes = l.bytes := flatMap_latin1 l.ascii
  rw [hfirst, appendLabels_of_ne_nil l.nonempty]

/-- The length of a short label is neither the end of a name nor a pointer. -/
theorem labelLength {n : Nat} (hpos : 0 < n) (h : n ≤ 63) :
    (UInt8.ofNat n).toNat = n ∧ UInt8.ofNat n ≠ 0 ∧ UInt8.ofNat n &&& 0xC0 ≠ 0xC0 := by
  have htoNat : (UInt8.ofNat n).toNat = n := by
    rw [UInt8.toNat_ofNat']
    omega
  refine ⟨htoNat, ?_, ?_⟩
  · intro hzero
    rw [hzero] at htoNat
    exact absurd htoNat (by simp; omega)
  · intro hpointer
    have hle := Nat.and_le_left (n := n) (m := 192)
    have hand : n &&& 192 = 192 := by
      have := congrArg UInt8.toNat hpointer
      rwa [UInt8.toNat_and, htoNat] at this
    omega

/-- The decoder takes one label after the other. -/
theorem decodeDnsLoop_labels {data : Bytes} {labels : List DnsLabel} (hshort : ∀ l ∈ labels, l.bytes.length ≤ 63)
    {turns pos jumps : Nat} (hturns : labels.length < turns) (name : Bytes)
    (hat : At data pos ((labels.map DnsLabel.bytes).flatMap encodeDnsLabel ++ [0x00])) :
    decodeDnsLoop data turns pos jumps none name =
      .ok (appendLabels name labels, pos + ((labels.map DnsLabel.bytes).flatMap encodeDnsLabel ++ [0x00]).length) := by
  induction labels generalizing turns pos name with
  | nil =>
    obtain ⟨n, rfl⟩ : ∃ n, turns = n + 1 := ⟨turns - 1, by omega⟩
    have hend := hat.end_le
    have hzero : data[pos]? = some 0x00 := getElem?_eq_some_iff_at.2 hat
    rw [decodeDnsLoop, if_neg (by simp at hend; omega), Outcome.index, hzero]
    rfl
  | cons l labels ih =>
    obtain ⟨n, rfl⟩ : ∃ n, turns = n + 1 := ⟨turns - 1, by omega⟩
    have hl : l.bytes.length ≤ 63 := hshort l (by simp)
    have hencode : encodeDnsLabel l.bytes = UInt8.ofNat l.bytes.length :: l.bytes := by
      rw [encodeDnsLabel, if_neg l.nonempty, if_neg (by omega)]
    rw [List.map_cons, List.flatMap_cons, hencode, List.append_assoc] at hat ⊢
    obtain ⟨hlabel, hrest⟩ := at_append_iff.1 hat
    have hend := hlabel.end_le
    rw [List.length_cons] at hrest hend
    have hsplit : At data pos ([UInt8.ofNat l.bytes.length] ++ l.bytes) := hlabel
    obtain ⟨hlen, hbytes⟩ := at_append_iff.1 hsplit
    have hindex : data[pos]? = some (UInt8.ofNat l.bytes.length) := getElem?_eq_some_iff_at.2 hlen
    obtain ⟨htoNat, hzero, hpointer⟩ := labelLength (List.length_pos_iff.2 l.nonempty) hl
    have hrange : range? data (pos + 1) (pos + 1 + l.bytes.length) = some l.bytes := range?_eq_some_iff_at.2 ⟨hbytes, rfl⟩
    rw [decodeDnsLoop, if_neg (by omega), Outcome.index, hindex]
    show (if UInt8.ofNat l.bytes.length = 0 then _ else _) = _
    rw [if_neg hzero, if_neg hpointer, htoNat, if_neg (by omega), hrange]
    show decodeDnsLoop data n (pos + (1 + l.bytes.length)) jumps none (pushLabel name l.bytes) = _
    rw [Nat.add_comm 1 l.bytes.length, ih (fun l' hl' => hshort l' (by simp [hl'])) (by simpa using hturns) _ hrest]
    refine congrArg Outcome.ok (Prod.ext rfl ?_)
    simp only [List.length_append, List.length_cons]
    omega

/-- A label takes at least a byte. -/
theorem labels_length_le (labels : List DnsLabel) :
    labels.length ≤ ((labels.map DnsLabel.bytes).flatMap encodeDnsLabel).length := by
  induction labels with
  | nil => simp
  | cons l labels ih =>
    have hfirst : 1 ≤ (encodeDnsLabel l.bytes).length := by
      rw [encodeDnsLabel, if_neg l.nonempty]
      split <;> simp
    simp only [List.map_cons, List.flatMap_cons, List.length_append, List.length_cons]
    omega

/-- A short name comes back. -/
theorem short_roundTrips {h : HostName} (hshort : h.Short) : h.RoundTrips := by
  intro suffix
  rw [encodeDnsName_text]
  have hat : At ((h.labels.map DnsLabel.bytes).flatMap encodeDnsLabel ++ [0x00] ++ suffix) 0
      ((h.labels.map DnsLabel.bytes).flatMap encodeDnsLabel ++ [0x00]) := at_zero_iff.2 ⟨suffix, rfl⟩
  have hturns : h.labels.length < dnsTurns ((h.labels.map DnsLabel.bytes).flatMap encodeDnsLabel ++ [0x00] ++ suffix) := by
    have hcount := labels_length_le h.labels
    simp only [dnsTurns, List.length_append, List.length_cons, List.length_nil]
    omega
  rw [decodeDnsName, decodeDnsLoop_labels hshort hturns [] hat, appendLabels_eq_text, Nat.zero_add]

/-- Of a longer label the start is read back. -/
theorem short_of_roundTrips {h : HostName} (hround : h.RoundTrips) : h.Short := by
  have hread := short_roundTrips (truncate_short h) []
  rw [encodeDnsName_truncate, hround []] at hread
  exact short_of_truncate_text h (congrArg Prod.fst (Outcome.ok.inj hread)).symm

/-- The encoding determines the text of a host name with short labels. -/
theorem text_eq_of_encode_eq {h h' : HostName} (hshort : h.Short) (hshort' : h'.Short)
    (heq : encodeDnsName h.text = encodeDnsName h'.text) : h.text = h'.text := by
  have hread := short_roundTrips hshort []
  rw [heq, short_roundTrips hshort' []] at hread
  exact (congrArg Prod.fst (Outcome.ok.inj hread)).symm

/-- The question of a query: what stands behind the header. -/
theorem drop_buildDnsQuery (hostname : Bytes) (txId : Nat) :
    (buildDnsQuery hostname txId).drop 12 = encodeDnsName hostname ++ (beBytes 2 dnsTypeA ++ beBytes 2 dnsClassIn) := by
  have hheader : (beBytes 2 txId ++ beBytes 2 dnsFlagRd ++ beBytes 2 1 ++ beBytes 2 0 ++ beBytes 2 0 ++ beBytes 2 0).length = 12 := by
    simp only [List.length_append, beBytes_length]
  rw [buildDnsQuery, List.append_assoc, List.append_assoc]
  exact List.drop_left' hheader

end Aux

/-- A host name is read back from its encoding exactly when its labels have at most 63 bytes. Among such host names a question is
that of one only; every other host name shares its question with one of them. -/
theorem hostName_roundTrips_iff (h : HostName) :
    (h.RoundTrips ↔ h.Short) ∧
      (h.Short → ∀ h' : HostName, h'.Short → ∀ txId txId',
        (buildDnsQuery h.text txId).drop 12 = (buildDnsQuery h'.text txId').drop 12 → h.text = h'.text) ∧
      (¬h.Short → ∃ h' : HostName, h'.Short ∧ h'.text ≠ h.text ∧
        ∀ txId, buildDnsQuery h'.text txId = buildDnsQuery h.text txId) := by
  refine ⟨⟨Aux.short_of_roundTrips, Aux.short_roundTrips⟩, ?_, ?_⟩
  · intro hshort h' hshort' txId txId' heq
    rw [Aux.drop_buildDnsQuery, Aux.drop_buildDnsQuery] at heq
    exact Aux.text_eq_of_encode_eq hshort hshort' (List.append_cancel_right heq)
  · intro hlong
    refine ⟨h.truncate, Aux.truncate_short h, fun heq => hlong (Aux.short_of_truncate_text h heq), ?_⟩
    intro txId
    rw [buildDnsQuery, buildDnsQuery, Aux.encodeDnsName_truncate]

/-- The label `a` repeated. -/
def repeatedLabel (n : Nat) : DnsLabel where
  bytes := List.replicate (n + 1) 0x61
  nonempty := by simp
  ascii b hb := by
    rw [List.eq_of_mem_replicate hb]
    decide
  undotted h := by
    have := List.eq_of_mem_replicate h
    contradiction

/-- A host name with that label and a short one. -/
def sampleHostName (n : Nat) : HostName where
  labels := [repeatedLabel n, repeatedLabel 1]
  nonempty := by simp

/-- The sample name with a label of 62 bytes comes back. -/
theorem sampleHostName_roundTrips : (sampleHostName 62).RoundTrips :=
  (hostName_roundTrips_iff (sampleHostName 62)).1.2 (by simp [HostName.Short, sampleHostName, repeatedLabel])

/-- A label of 64 bytes. -/
theorem not_roundTrips_sampleHostName : ¬(sampleHostName 63).RoundTrips := by
  intro h
  have hlen := Aux.short_of_roundTrips h (repeatedLabel 63) (by simp [sampleHostName])
  simp [repeatedLabel] at hlen

end FdoUefi
