import FdoUefi.TpmWire
import FdoUefi.Lib.Marshal

/-!
# The layout of TPM 2.0 commands

What the client's commands are for a TPM that takes them apart: a `WireCommand` is a command with its arguments, and
`commandLayout` is how TPM 2.0 lays it out. The layout is put together from the layouts of its parts and owes nothing to the
functions that build commands.
-/

namespace FdoUefi

open Prog Marshal

/-! ## Public areas -/

/-- `TPMT_ECC_SCHEME`: the null scheme has no hash. -/
inductive EccScheme where
  | null
  | ecdsa (hash : UInt16)
  | ecdh (hash : UInt16)
  deriving DecidableEq, Repr

/-- The public area of a P-256 key or of an HMAC key with SHA-256, named by SHA-256. -/
inductive PublicArea where
  | ecc (attributes : UInt32) (authPolicy : Bytes) (scheme : EccScheme) (x y : Bytes)
  | keyedHash (attributes : UInt32) (authPolicy unique : Bytes)
  deriving DecidableEq, Repr

/-- `TPMI_ALG_ECC_SCHEME` -/
def EccScheme.alg : EccScheme → Nat
  | .null => 0x0010
  | .ecdsa _ => 0x0018
  | .ecdh _ => 0x0019

def EccScheme.hash : EccScheme → UInt16
  | .null => 0
  | .ecdsa hash | .ecdh hash => hash

/-- `TPMI_ALG_PUBLIC` -/
def PublicArea.type : PublicArea → Nat
  | .ecc .. => 0x0023
  | .keyedHash .. => 0x0008

def schemeLayout : Marshal EccScheme :=
  tagged 2 EccScheme.alg fun alg =>
    if alg = 0x0010 then nothing.named (fun _ => .null) (fun _ => ())
    else if alg = 0x0018 then u16.named .ecdsa EccScheme.hash
    else if alg = 0x0019 then u16.named .ecdh EccScheme.hash
    else never

/-- `TPMT_PUBLIC` -/
def publicLayout : Marshal PublicArea :=
  tagged 2 PublicArea.type fun type =>
    if type = 0x0023 then
      (after [0x00, 0x0B] (seq u32 (seq (sized 2) (after [0x00, 0x10]
        (seq schemeLayout (after [0x00, 0x03, 0x00, 0x10] (seq (sized 2) (sized 2)))))))).named
        (fun p => .ecc p.1 p.2.1 p.2.2.1 p.2.2.2.1 p.2.2.2.2)
        (fun area => match area with
          | .ecc attributes authPolicy scheme x y => (attributes, authPolicy, scheme, x, y)
          | .keyedHash .. => (0, [], .null, [], []))
    else if type = 0x0008 then
      (after [0x00, 0x0B] (seq u32 (seq (sized 2) (after [0x00, 0x05, 0x00, 0x0B] (sized 2))))).named
        (fun p => .keyedHash p.1 p.2.1 p.2.2)
        (fun area => match area with
          | .ecc .. => (0, [], [])
          | .keyedHash attributes authPolicy unique => (attributes, authPolicy, unique))
    else never

/-! ## Commands -/

/-- A command of the owner hierarchy, or of a key, that is authorized with an empty password. -/
inductive WireCommand where
  | nvReadPublic (index : UInt32)
  | nvRead (index : UInt32) (size offset : UInt16)
  | createPrimary (inPublic : PublicArea)
  | ecdhZgen (key : UInt32) (x y : Bytes)
  | flushContext (handle : UInt32)
  | sign (key : UInt32) (digest : Bytes)
  | getRandom (size : UInt16)
  | readPublic (handle : UInt32)
  | hmac (key : UInt32) (data : Bytes)
  | evictControl (object persistent : UInt32)
  | nvUndefineSpace (index : UInt32)
  | nvDefineSpace (index attributes : UInt32) (size : UInt16)
  | nvWrite (index : UInt32) (data : Bytes)
  deriving DecidableEq, Repr

namespace WireCommand

/-- `TPM_ST`: the command has an authorization area or not. -/
def tag : WireCommand → Nat
  | nvReadPublic .. | flushContext .. | getRandom .. | readPublic .. => 0x8001
  | _ => 0x8002

/-- `TPM_CC` -/
def code : WireCommand → Nat
  | nvReadPublic .. => 0x169
  | nvRead .. => 0x14E
  | createPrimary .. => 0x131
  | ecdhZgen .. => 0x154
  | flushContext .. => 0x165
  | sign .. => 0x15D
  | getRandom .. => 0x17B
  | readPublic .. => 0x173
  | hmac .. => 0x155
  | evictControl .. => 0x120
  | nvUndefineSpace .. => 0x122
  | nvDefineSpace .. => 0x12A
  | nvWrite .. => 0x137

/-- The handle or index a command is about. -/
def handle : WireCommand → UInt32
  | nvReadPublic h | flushContext h | readPublic h | ecdhZgen h _ _ | sign h _ | hmac h _ | nvUndefineSpace h | nvWrite h _ => h
  | _ => 0

/-- The bytes a command carries. -/
def data : WireCommand → Bytes
  | sign _ u | hmac _ u | nvWrite _ u => u
  | _ => []

end WireCommand

/-- A password session with an empty password, behind its size. -/
def session : Bytes := [0x00, 0x00, 0x00, 0x09, 0x40, 0x00, 0x00, 0x09, 0x00, 0x00, 0x00, 0x00, 0x00]

/-- `TPM_RH_OWNER` -/
def owner : Bytes := [0x40, 0x00, 0x00, 0x01]

/-- What stands behind the code of a command. -/
def bodyLayout (code : Nat) : Marshal WireCommand :=
  if code = 0x169 then u32.named .nvReadPublic WireCommand.handle
  else if code = 0x165 then u32.named .flushContext WireCommand.handle
  else if code = 0x173 then u32.named .readPublic WireCommand.handle
  else if code = 0x17B then
    u16.named .getRandom (fun c => match c with | .getRandom size => size | _ => 0)
  else if code = 0x14E then
    (after owner (seq u32 (after session (seq u16 u16)))).named (fun p => .nvRead p.1 p.2.1 p.2.2)
      (fun c => match c with | .nvRead index size offset => (index, size, offset) | _ => (0, 0, 0))
  else if code = 0x131 then
    (after (owner ++ session ++ [0x00, 0x04, 0x00, 0x00, 0x00, 0x00])
        (seq (within 2 0 publicLayout) (after [0x00, 0x00, 0x00, 0x00, 0x00, 0x00] nothing))).named (fun p => .createPrimary p.1)
      (fun c => match c with | .createPrimary area => (area, ()) | _ => (.keyedHash 0 [] [], ()))
  else if code = 0x154 then
    (seq u32 (after session (within 2 0 (seq (sized 2) (sized 2))))).named (fun p => .ecdhZgen p.1 p.2.1 p.2.2)
      (fun c => match c with | .ecdhZgen key x y => (key, x, y) | _ => (0, [], []))
  else if code = 0x15D then
    (seq u32 (after session (seq (sized 2) (after [0x00, 0x18, 0x00, 0x0B, 0x80, 0x24, 0x40, 0x00, 0x00, 0x07, 0x00, 0x00]
        nothing)))).named (fun p => .sign p.1 p.2.1) (fun c => (c.handle, c.data, ()))
  else if code = 0x155 then
    (seq u32 (after session (seq (sized 2) (after [0x00, 0x0B] nothing)))).named (fun p => .hmac p.1 p.2.1)
      (fun c => (c.handle, c.data, ()))
  else if code = 0x120 then
    (after owner (seq u32 (after session u32))).named (fun p => .evictControl p.1 p.2)
      (fun c => match c with | .evictControl object persistent => (object, persistent) | _ => (0, 0))
  else if code = 0x122 then
    (after owner (seq u32 (after session nothing))).named (fun p => .nvUndefineSpace p.1) (fun c => (c.handle, ()))
  else if code = 0x12A then
    (after (owner ++ session ++ [0x00, 0x00]) (within 2 0 (seq u32 (after [0x00, 0x0B] (seq u32 (after [0x00, 0x00] u16)))))).named
      (fun p => .nvDefineSpace p.1 p.2.1 p.2.2)
      (fun c => match c with | .nvDefineSpace index attributes size => (index, attributes, size) | _ => (0, 0, 0))
  else if code = 0x137 then
    (after owner (seq u32 (after session (seq (sized 2) (after [0x00, 0x00] nothing))))).named (fun p => .nvWrite p.1 p.2.1)
      (fun c => (c.handle, c.data, ()))
  else never

/-- A command: its tag, the size of all of it, its code and what the code asks for. -/
def commandLayout : Marshal WireCommand :=
  tagged 2 WireCommand.tag fun _ => within 4 6 (tagged 4 WireCommand.code bodyLayout)

/-! ## What the client builds -/

/-- The bytes of a public area, as the layout has them. The client writes them out for each of its three keys. -/
def PublicArea.bytes (area : PublicArea) : Bytes := publicLayout.write area

/-- The public area that the client asks for in an ECDH key. -/
def ecdhTemplate : PublicArea := .ecc 0x00020472 [] (.ecdh 0x000B) [] []

/-- The public area that it asks for in a signing key: a key of the device, with its policy. -/
def signingTemplate : PublicArea := .ecc 0x000404F2 deviceKeyAuthPolicySha256 (.ecdsa 0x000B) [] []

/-- The public area that it asks for in an HMAC key. -/
def hmacTemplate : PublicArea := .keyedHash 0x000404F2 [] []

namespace WireCommand

/-- The bytes the client builds for a command. -/
def bytes : WireCommand → Bytes
  | nvReadPublic index => buildNvReadPublicCmd index.toNat
  | nvRead index size offset => buildNvReadCmd index.toNat size.toNat offset.toNat
  | createPrimary inPublic => buildCreatePrimaryCmd inPublic.bytes
  | ecdhZgen key x y => buildEcdhZgenCmd key.toNat x y
  | flushContext handle => buildFlushContextCmd handle.toNat
  | sign key digest => buildSignCmd key.toNat digest
  | getRandom size => buildGetRandomCmd size.toNat
  | readPublic handle => buildReadPublicCmd handle.toNat
  | hmac key data => buildHmacCmd key.toNat data
  | evictControl object persistent => buildEvictControlCmd object.toNat persistent.toNat
  | nvUndefineSpace index => buildNvUndefineSpaceCmd index.toNat
  | nvDefineSpace index attributes size => buildNvDefineSpaceCmd index.toNat size.toNat attributes.toNat
  | nvWrite index data => buildNvWriteCmd index.toNat data

/-- How many bytes of a command stand behind a size that the client cuts to 16 bits. -/
def payload : WireCommand → Nat
  | createPrimary inPublic => inPublic.bytes.length
  | ecdhZgen _ x y => 2 + x.length + 2 + y.length
  | sign _ digest => digest.length
  | hmac _ data | nvWrite _ data => data.length
  | _ => 0

end WireCommand

namespace TpmLayoutAux

/-- The session area is that of a password session. -/
theorem authArea_eq : authArea = session := by decide

/-- The owner hierarchy is its handle. -/
theorem packU32_owner : packU32 tpm2RhOwner = owner := by decide

/-! ## The bytes of a command -/

/-- A command is written as its body behind the header. -/
theorem commandLayout_write (c : WireCommand) : commandLayout.write c = finishCmd c.tag c.code ((bodyLayout c.code).write c) := by
  change beBytes 2 c.tag ++ (beBytes 4 (6 + (beBytes 4 c.code ++ (bodyLayout c.code).write c).length) ++
    (beBytes 4 c.code ++ (bodyLayout c.code).write c)) = _
  rw [finishCmd, packU16, packU32, packU32, List.length_append, beBytes_length, ← Nat.add_assoc]
  simp only [List.append_assoc]

/-- Every builder finishes the body that the layout has for its code. -/
theorem bytes_eq_finishCmd (c : WireCommand) : c.bytes = finishCmd c.tag c.code ((bodyLayout c.code).write c) := by
  cases c with
  | nvReadPublic index => rfl
  | flushContext handle => rfl
  | readPublic handle => rfl
  | getRandom size => rfl
  | createPrimary area =>
    refine congrArg (finishCmd _ _) ?_
    change _ = owner ++ session ++ [0, 4, 0, 0, 0, 0] ++ (beBytes 2 (0 + area.bytes.length) ++ area.bytes ++ ([0, 0, 0, 0, 0, 0] ++ []))
    simp only [packU32_owner, authArea_eq, sizedU16, packU16, Nat.zero_add, List.append_assoc]
    rfl
  | ecdhZgen key x y =>
    refine congrArg (finishCmd _ _) ?_
    have hsize : 0 + (sizedU16 x ++ sizedU16 y).length = 2 + x.length + 2 + y.length := by
      simp only [sizedU16, packU16, List.length_append, beBytes_length]
      omega
    change _ = packU32 key.toNat ++ (session ++ (beBytes 2 (0 + (sizedU16 x ++ sizedU16 y).length) ++ (sizedU16 x ++ sizedU16 y)))
    rw [hsize]
    simp only [authArea_eq, packU16, List.append_assoc]
  | sign | hmac | nvRead | evictControl | nvUndefineSpace | nvDefineSpace | nvWrite =>
    refine congrArg (finishCmd _ _) ?_
    simp only [packU32_owner, authArea_eq, sizedU16, List.append_assoc]
    rfl

/-- What the client builds is what the layout writes. -/
theorem bytes_eq_write (c : WireCommand) : c.bytes = commandLayout.write c :=
  (bytes_eq_finishCmd c).trans (commandLayout_write c).symm

/-! ## The keys of the client -/

/-- The area that the client writes for a P-256 key is that of a key without a point, for whatever attributes, policy and scheme. -/
theorem eccPublic_eq (attributes : UInt32) (authPolicy : Bytes) :
    eccPublic attributes.toNat authPolicy tpm2AlgEcdh = (PublicArea.ecc attributes authPolicy (.ecdh 0x000B) [] []).bytes ∧
      eccPublic attributes.toNat authPolicy tpm2AlgEcdsa = (PublicArea.ecc attributes authPolicy (.ecdsa 0x000B) [] []).bytes := by
  have hscheme : ∀ (alg : Bytes) (scheme : EccScheme), schemeLayout.write scheme = alg ++ packU16 tpm2AlgSha256 →
      (PublicArea.ecc attributes authPolicy scheme [] []).bytes =
        packU16 tpm2AlgEcc ++ packU16 tpm2AlgSha256 ++ packU32 attributes.toNat ++ sizedU16 authPolicy ++ packU16 tpm2AlgNull ++
          alg ++ packU16 tpm2AlgSha256 ++ packU16 tpm2EccNistP256 ++ packU16 tpm2AlgNull ++ [0, 0] ++ [0, 0] := by
    intro alg scheme hwrite
    simp only [PublicArea.bytes, publicLayout, PublicArea.type, tagged_write, if_pos, named_write, after_write, seq_write,
      u32_write, sized_write, hwrite, sizedU16, packU16, packU32, List.append_assoc]
    rfl
  exact ⟨(hscheme (packU16 tpm2AlgEcdh) (.ecdh 0x000B) rfl).symm, (hscheme (packU16 tpm2AlgEcdsa) (.ecdsa 0x000B) rfl).symm⟩

/-- The command for an ECDH key asks for the template. -/
theorem buildCreatePrimaryEcdhCmd_eq : buildCreatePrimaryEcdhCmd = (WireCommand.createPrimary ecdhTemplate).bytes :=
  congrArg buildCreatePrimaryCmd (eccPublic_eq 0x00020472 []).1

/-- The command for a signing key asks for its template. -/
theorem buildCreatePrimarySigningCmd_eq : buildCreatePrimarySigningCmd = (WireCommand.createPrimary signingTemplate).bytes :=
  congrArg buildCreatePrimaryCmd (eccPublic_eq 0x000404F2 deviceKeyAuthPolicySha256).2

/-- The command for an HMAC key asks for its template. -/
theorem buildCreatePrimaryHmacCmd_eq : buildCreatePrimaryHmacCmd = (WireCommand.createPrimary hmacTemplate).bytes := by
  decide

/-! ## Lengths -/

/-- How long the body of a command is without its payload. -/
def bodyBase (code : Nat) : Nat :=
  if code = 0x17B then 2
  else if code = 0x169 ∨ code = 0x165 ∨ code = 0x173 then 4
  else if code = 0x131 then 31
  else if code = 0x154 then 19
  else if code = 0x155 ∨ code = 0x122 then 21
  else if code = 0x15D then 31
  else if code = 0x14E ∨ code = 0x120 ∨ code = 0x137 then 25
  else 35

/-- A body is as long as its payload and its fixed fields. -/
theorem body_length (c : WireCommand) : ((bodyLayout c.code).write c).length = bodyBase c.code + c.payload := by
  cases c <;> simp [bodyLayout, bodyBase, WireCommand.code, WireCommand.payload, WireCommand.data, session, owner, PublicArea.bytes] <;> omega

/-! ## Which commands fit -/

/-- Every scheme can be written. -/
theorem schemeLayout_fits (scheme : EccScheme) : schemeLayout.fits scheme := by
  cases scheme <;> simp [schemeLayout, EccScheme.alg, EccScheme.hash]

/-- A public area of less than 2^16 bytes can be written. -/
theorem publicLayout_fits {area : PublicArea} (h : area.bytes.length < 2 ^ 16) : publicLayout.fits area := by
  cases area <;> simp [publicLayout, PublicArea.bytes, PublicArea.type, schemeLayout_fits] at h ⊢ <;> omega

/-- A body with a payload of less than 2^16 bytes can be written. -/
theorem bodyLayout_fits {c : WireCommand} (h : c.payload < 2 ^ 16) : (bodyLayout c.code).fits c := by
  cases c with
  | createPrimary area =>
    have hsize : 0 + (publicLayout.write area).length < 256 ^ 2 := by rwa [Nat.zero_add]
    simpa [bodyLayout, WireCommand.code] using ⟨publicLayout_fits h, by simpa using hsize⟩
  | ecdhZgen key x y =>
    simp [bodyLayout, WireCommand.code, WireCommand.payload] at h ⊢
    omega
  | sign | hmac | nvWrite => simpa [bodyLayout, WireCommand.code, WireCommand.handle, WireCommand.data, WireCommand.payload] using h
  | _ => simp [bodyLayout, WireCommand.code, WireCommand.handle]

/-- A body that can be written has a payload of less than 2^16 bytes. -/
theorem payload_lt_of_fits {c : WireCommand} (h : (bodyLayout c.code).fits c) : c.payload < 2 ^ 16 := by
  cases c with
  | createPrimary area =>
    simp [bodyLayout, WireCommand.code] at h
    exact h.2
  | ecdhZgen key x y =>
    simp [bodyLayout, WireCommand.code, WireCommand.payload] at h ⊢
    omega
  | sign | hmac | nvWrite => simpa [bodyLayout, WireCommand.code, WireCommand.handle, WireCommand.data, WireCommand.payload] using h
  | _ => exact Nat.two_pow_pos 16

/-- The tag of a command has two bytes. -/
theorem tag_lt (c : WireCommand) : c.tag < 256 ^ 2 := by cases c <;> simp [WireCommand.tag]

/-- The code of a command has four bytes. -/
theorem code_lt (c : WireCommand) : c.code < 256 ^ 4 := by cases c <;> simp [WireCommand.code]

/-- The fixed fields have at most 35 bytes. -/
theorem bodyBase_le (code : Nat) : bodyBase code ≤ 35 := by
  unfold bodyBase
  split_ifs <;> decide

/-- A command can be written exactly if its payload is short enough. -/
theorem commandLayout_fits_iff (c : WireCommand) : commandLayout.fits c ↔ c.payload < 2 ^ 16 := by
  constructor
  · intro h
    exact payload_lt_of_fits h.2.1.2
  · intro h
    have hbase := bodyBase_le c.code
    have hlen := body_length c
    refine ⟨tag_lt c, ⟨code_lt c, bodyLayout_fits h⟩, ?_⟩
    change 6 + (beBytes 4 c.code ++ (bodyLayout c.code).write c).length < 256 ^ 4
    rw [List.length_append, beBytes_length, hlen]
    omega

/-! ## Commands of the same bytes -/

/-- Two commands of the same bytes have the same code and equally long bodies. -/
theorem finishCmd_inj {tag tag' code code' : Nat} {body body' : Bytes} (hcode : code < 256 ^ 4) (hcode' : code' < 256 ^ 4)
    (h : finishCmd tag code body = finishCmd tag' code' body') : code = code' ∧ body = body' := by
  unfold finishCmd at h
  obtain ⟨hheader, hbody⟩ := List.append_inj h (by simp [packU16, packU32])
  obtain ⟨-, hcodes⟩ := List.append_inj hheader (by simp [packU16, packU32])
  have hvalue := congrArg beNat hcodes
  rw [packU32, packU32, beNat_beBytes hcode, beNat_beBytes hcode'] at hvalue
  exact ⟨hvalue, hbody⟩

/-- Commands of the same bytes carry equally much behind their sizes. -/
theorem payload_eq_of_write_eq {c c' : WireCommand} (h : commandLayout.write c = commandLayout.write c') : c.payload = c'.payload := by
  rw [commandLayout_write, commandLayout_write] at h
  obtain ⟨hcode, hbody⟩ := finishCmd_inj (code_lt c) (code_lt c') h
  have hlen := congrArg List.length hbody
  rw [body_length, body_length, hcode] at hlen
  exact Nat.add_left_cancel hlen

/-- A command whose payload is small enough is the one its bytes say. -/
theorem whole_bytes_of_small {c : WireCommand} (h : c.payload < 2 ^ 16) : commandLayout.whole c.bytes = some c :=
  whole_eq_some_iff.2 ⟨(commandLayout_fits_iff c).2 h, bytes_eq_write c⟩

/-- What bytes of a command are read as carries as much as the command. -/
theorem payload_lt_of_whole {c c' : WireCommand} (h : commandLayout.whole c.bytes = some c') : c.payload < 2 ^ 16 := by
  obtain ⟨hfits, hbytes⟩ := whole_eq_some_iff.1 h
  rw [bytes_eq_write] at hbytes
  rw [payload_eq_of_write_eq hbytes]
  exact (commandLayout_fits_iff c').1 hfits

end TpmLayoutAux

end FdoUefi
