import FdoUefi.Lemmas.Delivery
import FdoUefi.Theorems.Di

/-!
# Anti-rollback across boots

Every firmware that is chain-loaded has at least the revision the counter had before, and the counter has at least its revision
after: that is the ratchet. It holds as long as the counter can be raised whenever it has to be. A structure that the rendezvous
parser accepts and the counter's writer does not, such as one in map form, is delivered to without it.
-/

namespace FdoUefi

open Prog Prog.Run Tpm

/-- To a device whose index holds `d`, the boot offers only firmware to whose revision the counter can be raised, or need not be. -/
def Ratchets (Γ : Ctx) (boot : Boot) (d : Bytes) : Prop :=
  ∀ payload image, Delivery.Offers Γ boot d payload image → counterOf d < payload.firmwareRev →
    ∃ o, Dctpm.withMinFirmwareRev d payload.firmwareRev = .ok o

/-- A boot in which no read and no write of an index fails. -/
def BootTo (Γ : Ctx) (D : TpmDevice) (boot : Boot) (s t : Machine) : Prop :=
  t = (checkAndDeliver Γ D boot s).2 ∧ t.tpm.failedReads = s.tpm.failedReads ∧ t.tpm.failedWrites = s.tpm.failedWrites

/-- Such a boot, over an index that the ratchet works for. -/
def BootStep (Γ : Ctx) (D : TpmDevice) (s t : Machine) : Prop :=
  ∃ boot, BootTo Γ D boot s t ∧ ∀ d, s.tpm.content dctpmNvIndex = some d → Ratchets Γ boot d

namespace Aux

variable {Γ : Ctx} {D : TpmDevice} {boot : Boot} {s t : Machine} {new : List (Fw.FirmwarePayload × Bytes)}

/-- The images that were chain-loaded are in the order of their revisions, and the counter is at least each of these. -/
structure Ratchet (new : List (Fw.FirmwarePayload × Bytes)) (t : Machine) : Prop where
  ascending : new.Pairwise fun a b => a.1.firmwareRev ≤ b.1.firmwareRev
  below : ∀ d, t.tpm.content dctpmNvIndex = some d → ∀ x ∈ new, x.1.firmwareRev ≤ counterOf d

/-- What a boot does when its reads and writes succeed. -/
theorem bootTo_cases (h : BootTo Γ D boot s t) :
    t.chainloaded = s.chainloaded ∧ t.tpm.content dctpmNvIndex = s.tpm.content dctpmNvIndex ∨
      ∃ d payload image, s.tpm.content dctpmNvIndex = some d ∧ Delivery.Offers Γ boot d payload image ∧
        counterOf d ≤ payload.firmwareRev ∧ Ratcheted d payload.firmwareRev (t.tpm.content dctpmNvIndex) ∧
        (t.chainloaded = s.chainloaded ∨ t.chainloaded = s.chainloaded ++ [(payload, image)]) := by
  obtain ⟨ht, hreads, hwrites⟩ := h
  rcases checkAndDeliver_cases ht with hsame | hfailed | hfailed | hoffered
  · exact .inl hsame
  · omega
  · omega
  · exact .inr hoffered

/-- After a firmware has been accepted the counter is at least its revision. -/
theorem Ratcheted.counter {d d' : Bytes} {rev : Nat} {content : Option Bytes} (h : Ratcheted d rev content) (hrev : rev < 2 ^ 64)
    (hcan : counterOf d < rev → ∃ o, Dctpm.withMinFirmwareRev d rev = .ok o) (hd' : content = some d') : rev ≤ counterOf d' := by
  rcases h with ⟨hd, hle | hno⟩ | ⟨o, z, -, ho, hd⟩
  · obtain rfl : d = d' := Option.some.inj (hd.symm.trans hd')
    exact hle
  · obtain rfl : d = d' := Option.some.inj (hd.symm.trans hd')
    by_contra hlt
    obtain ⟨o, ho⟩ := hcan (by omega)
    exact hno o ho
  · obtain rfl : o ++ z = d' := Option.some.inj (hd.symm.trans hd')
    rw [counterOf_of_ok (Dctpm.withMinFirmwareRev_ok hrev ho z).2]

/-- One boot keeps the ratchet. -/
theorem ratchet_step (hstep : BootStep Γ D s t) (hs : Ratchet new s) :
    ∃ more, t.chainloaded = s.chainloaded ++ more ∧ Ratchet (new ++ more) t := by
  obtain ⟨boot, hto, hratchets⟩ := hstep
  rcases bootTo_cases hto with ⟨hchain, hcontent⟩ | ⟨d, payload, image, hd, hoffers, hle, hratcheted, hchain⟩
  · refine ⟨[], by rw [hchain, List.append_nil], ?_⟩
    rw [List.append_nil]
    exact ⟨hs.ascending, fun d hd => hs.below d (by rw [← hcontent, hd])⟩
  · have hcounter : ∀ d', t.tpm.content dctpmNvIndex = some d' → payload.firmwareRev ≤ counterOf d' := fun d' hd' =>
      Ratcheted.counter hratcheted hoffers.rev_lt (hratchets d hd payload image hoffers) hd'
    have hold : ∀ x ∈ new, x.1.firmwareRev ≤ payload.firmwareRev := fun x hx => (hs.below d hd x hx).trans hle
    rcases hchain with hchain | hchain
    · refine ⟨[], by rw [hchain, List.append_nil], ?_⟩
      rw [List.append_nil]
      exact ⟨hs.ascending, fun d' hd' x hx => (hold x hx).trans (hcounter d' hd')⟩
    · refine ⟨[(payload, image)], hchain, List.pairwise_append.2 ⟨hs.ascending, List.pairwise_singleton _ _, ?_⟩, ?_⟩
      · intro x hx y hy
        rw [List.mem_singleton.1 hy]
        exact hold x hx
      · intro d' hd' x hx
        rcases List.mem_append.1 hx with hx | hx
        · exact (hold x hx).trans (hcounter d' hd')
        · rw [List.mem_singleton.1 hx]
          exact hcounter d' hd'

/-- Every run keeps the ratchet. -/
theorem ratchet_run (hrun : Relation.ReflTransGen (BootStep Γ D) s t) :
    ∃ new, t.chainloaded = s.chainloaded ++ new ∧ Ratchet new t := by
  induction hrun with
  | refl => exact ⟨[], by rw [List.append_nil], .nil, by simp⟩
  | tail _ hstep ih =>
    obtain ⟨new, hnew, hratchet⟩ := ih
    obtain ⟨more, hmore, hratchet'⟩ := ratchet_step hstep hratchet
    exact ⟨new ++ more, by rw [hmore, hnew, List.append_assoc], hratchet'⟩

end Aux

/-- Over every sequence of boots in which the counter can be raised whenever it has to be, no image is chain-loaded after one with
a higher revision. -/
theorem chainloaded_never_older {Γ : Ctx} {D : TpmDevice} {s t : Machine} (hrun : Relation.ReflTransGen (BootStep Γ D) s t) :
    ∃ new, t.chainloaded = s.chainloaded ++ new ∧ new.Pairwise fun a b => a.1.firmwareRev ≤ b.1.firmwareRev := by
  obtain ⟨new, hnew, hratchet⟩ := Aux.ratchet_run hrun
  exact ⟨new, hnew, hratchet.ascending⟩

namespace Aux

variable {Γ : Ctx} {D : TpmDevice} {boot : Boot} {s t : Machine}

/-- An index that can be rewritten works for the ratchet, and every boot leaves it one that can be rewritten. -/
theorem bootStep_of_rewritable {d : Bytes} (h : BootTo Γ D boot s t) (hd : s.tpm.content dctpmNvIndex = some d)
    (hrewritable : Dctpm.Rewritable d) :
    BootStep Γ D s t ∧ ∃ d', t.tpm.content dctpmNvIndex = some d' ∧ Dctpm.Rewritable d' := by
  refine ⟨⟨boot, h, fun d' hd' payload image _ _ => ?_⟩, ?_⟩
  · obtain rfl : d = d' := Option.some.inj (hd.symm.trans hd')
    exact (Dctpm.rewritable_iff _).1 hrewritable
  · rcases bootTo_cases h with ⟨-, hcontent⟩ | ⟨d', payload, image, hd', hoffers, -, hratcheted, -⟩
    · exact ⟨d, hcontent.trans hd, hrewritable⟩
    · obtain rfl : d = d' := Option.some.inj (hd.symm.trans hd')
      rcases hratcheted with ⟨hsame, -⟩ | ⟨o, z, -, ho, hnew⟩
      · exact ⟨d, hsame, hrewritable⟩
      · exact ⟨o ++ z, hnew, (Dctpm.withMinFirmwareRev_ok hoffers.rev_lt ho z).1⟩

end Aux

/-- From an index that can be rewritten on, every boot is one that the ratchet works for. -/
theorem bootSteps_of_rewritable {Γ : Ctx} {D : TpmDevice} {s t : Machine} {d : Bytes}
    (hrun : Relation.ReflTransGen (fun s t => ∃ boot, BootTo Γ D boot s t) s t) (hd : s.tpm.content dctpmNvIndex = some d)
    (hrewritable : Dctpm.Rewritable d) :
    Relation.ReflTransGen (BootStep Γ D) s t ∧ ∃ d', t.tpm.content dctpmNvIndex = some d' ∧ Dctpm.Rewritable d' := by
  induction hrun with
  | refl => exact ⟨.refl, d, hd, hrewritable⟩
  | tail _ hstep ih =>
    obtain ⟨hsteps, d', hd', hrewritable'⟩ := ih
    obtain ⟨boot, hto⟩ := hstep
    obtain ⟨hstep', hnext⟩ := Aux.bootStep_of_rewritable hto hd' hrewritable'
    exact ⟨hsteps.tail hstep', hnext⟩

/-! ## Two boots -/

/-- The payload of a firmware file for an image of four bytes, by its revision. -/
def sampleFirmwarePayload (rev : UInt8) : Bytes :=
  beBytes 21 0x8a1a46444f46016475656669667838365f36340000 ++ [rev] ++
    beBytes 42 0xf6822f58209f2981a7cc4d40a2a409dc895de64253acd819d7c0011c8e80b86fe899464e31444d5a9000

/-- A firmware file. -/
def sampleFirmwareFile (rev : UInt8) (signature : Bytes) : Bytes :=
  [0xd2, 0x84, 0x43, 0xa1, 0x01, 0x26, 0xa0] ++ encodeBstr (sampleFirmwarePayload rev) ++ encodeBstr signature

/-- The signatures of the platform key over the files of revision 5 and 3. -/
def sampleFirmwareSignature5 : Bytes := beBytes 64
  0xfac15b62ea0f571c19b12d4c4efdf209d2ce010e57678d3bbc8a34d51382eb279595b9ed35d0e65d12f57e2a30fec5101f1b9b442016be7f8d108b44604946c4

def sampleFirmwareSignature3 : Bytes := beBytes 64
  0x6d666e8752c509656e9d94ef57fea276de3928f4954359c3fba3339d68ef2c6e280fc28390169d61ab8120841f46a7f9d0e86a19f78cef63f9ca33803b0c8e7b

/-- The platform key's signature over a firmware payload, as the context lists it. -/
def sampleFirmwareSigned (rev : UInt8) (signature : Bytes) : Bytes × Bytes × Bytes :=
  ([0x84, 0x6a] ++ utf8 "Signature1" ++ [0x43, 0xa1, 0x01, 0x26, 0x40] ++ encodeBstr (sampleFirmwarePayload rev), signature,
    0x04 :: (Fw.platformKeyX ++ Fw.platformKeyY))

def sampleFirmwareCtx : Ctx :=
  Ctx.ofTables [sampleFirmwareSigned 5 sampleFirmwareSignature5, sampleFirmwareSigned 3 sampleFirmwareSignature3]
    [([0x4d, 0x5a, 0x90, 0x00], beBytes 32 0x9f2981a7cc4d40a2a409dc895de64253acd819d7c0011c8e80b86fe899464e31)] []

/-- A rendezvous information with a firmware URL. -/
def sampleRvInfo : Bytes := [0x81, 0x81, 0x82, 0x11] ++ encodeBstr (0x6a :: utf8 "http://f/p")

/-- A boot that is offered a file. -/
def sampleBoot (file : Bytes) : Boot where
  fuel := 8
  di := true
  diServer := fun _ => none
  get url := if url = utf8 "http://f/p" then some file else none
  chainload := fun _ => true

/-- The sample device with some content in its index. -/
def sampleHolding (d : Bytes) (h : d.length < 2 ^ 16) : Machine :=
  { sampleBlank with
    tpm := { sampleBlank.tpm with nv := Function.update (fun _ => none) dctpmNvIndex (some ⟨dctpmNvAttributes, d, true, h⟩) } }

/-- A structure of ten items, which holds no counter yet. -/
def sampleArrayDctpm : Bytes := [0x8a, 0, 0, 0, 0, 0] ++ sampleRvInfo ++ [0, 0, 0, 0]

/-- A structure in map form, which the rendezvous parser accepts. -/
def sampleMapDctpm : Bytes := [0xa1, 0x05] ++ sampleRvInfo

def sampleBoot5 : Boot := sampleBoot (sampleFirmwareFile 5 sampleFirmwareSignature5)

def sampleBoot3 : Boot := sampleBoot (sampleFirmwareFile 3 sampleFirmwareSignature3)

/-- What two boots of the sample device leave, first with revision 5 and then with revision 3. -/
def sampleTwoBoots (s : Machine) : Machine :=
  (checkAndDeliver sampleFirmwareCtx (sampleDevice fun _ => .run) sampleBoot3
    (checkAndDeliver sampleFirmwareCtx (sampleDevice fun _ => .run) sampleBoot5 s).2).2

/-- On the structure of ten items, which the first boot replaces by one of eleven, no older image follows. -/
theorem sampleTwoBoots_ascending :
    ∃ new, (sampleTwoBoots (sampleHolding sampleArrayDctpm (by decide))).chainloaded = [] ++ new ∧
      new.Pairwise fun a b => a.1.firmwareRev ≤ b.1.firmwareRev := by
  have hrewritable : Dctpm.Rewritable sampleArrayDctpm := by
    have hok : Outcome.okWith (fun _ => true) (Dctpm.withMinFirmwareRev sampleArrayDctpm 0) = true := by decide +kernel
    obtain ⟨o, ho, -⟩ := Outcome.okWith_iff.1 hok
    exact (Dctpm.rewritable_iff 0).2 ⟨o, ho⟩
  have hfirst : BootTo sampleFirmwareCtx (sampleDevice fun _ => .run) sampleBoot5 (sampleHolding sampleArrayDctpm (by decide))
      (checkAndDeliver sampleFirmwareCtx (sampleDevice fun _ => .run) sampleBoot5 (sampleHolding sampleArrayDctpm (by decide))).2 :=
    ⟨rfl, by decide +kernel, by decide +kernel⟩
  have hsecond : BootTo sampleFirmwareCtx (sampleDevice fun _ => .run) sampleBoot3
      (checkAndDeliver sampleFirmwareCtx (sampleDevice fun _ => .run) sampleBoot5 (sampleHolding sampleArrayDctpm (by decide))).2
      (sampleTwoBoots (sampleHolding sampleArrayDctpm (by decide))) :=
    ⟨rfl, by decide +kernel, by decide +kernel⟩
  have hcontent : (sampleHolding sampleArrayDctpm (by decide)).tpm.content dctpmNvIndex = some sampleArrayDctpm := by
    decide +kernel
  have hsteps := (bootSteps_of_rewritable (.tail (.single ⟨_, hfirst⟩) ⟨_, hsecond⟩) hcontent hrewritable).1
  exact chainloaded_never_older hsteps

/-- On the structure in map form every read and write succeeds in both boots, and revision 3 is chain-loaded after revision 5. -/
theorem mapDctpm_rolled_back :
    (sampleTwoBoots (sampleHolding sampleMapDctpm (by decide))).tpm.failedReads = 0 ∧
    (sampleTwoBoots (sampleHolding sampleMapDctpm (by decide))).tpm.failedWrites = 0 ∧
    (sampleTwoBoots (sampleHolding sampleMapDctpm (by decide))).chainloaded.map (·.1.firmwareRev) = [5, 3] := by
  refine ⟨?_, ?_, ?_⟩ <;> decide +kernel

end FdoUefi
