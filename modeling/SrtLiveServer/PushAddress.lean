import SrtLiveServer.HostAddress
import SrtLiveServer.RelayUrl

/-! The addresses a push destination may resolve to. `validate_push_url` refuses
internal hosts by the family of the address; what the address denotes, mapped
IPv4 hosts included, is compared with that. -/
namespace SrtLiveServer.PushAddress
open Bytes PushUrl RelayUrl HostAddress

def SockAddr.host : SockAddr → Option Host
  | .inet v _ => some (.v4 v)
  | .inet6 v _ => some (hostOf6 v)
  | .other _ => none

def DenotesInternal (addr : SockAddr) : Prop := ∃ host ∈ SockAddr.host addr, host.Internal

/-- Written as an IPv6 address, and denotes an internal IPv4 host. -/
def MappedInternal : SockAddr → Prop
  | .inet6 v _ => v4Mapped v = true ∧ (Host.v4 (v.setWidth 32)).Internal
  | _ => False

def Category.internal (c : Category) : Bool := c.loopback || c.linkLocal || c.privnet

theorem ipv4InCidr_iff (addr base : BitVec 32) {len : Nat} (positive : len ≠ 0) :
    ipv4InCidr addr base len = true ↔ InNet base len addr := by
  unfold ipv4InCidr
  rw [if_neg positive]
  dsimp only
  rw [beq_iff_eq,and_mask_iff]

theorem categorizeAddr_inet (v : BitVec 32) (port : Nat) :
    Category.internal (categorizeAddr (.inet v port)) = true ↔ (Host.v4 v).Internal := by
  simp only [Category.internal,categorizeAddr,Bool.or_eq_true,Host.Internal]
  rw [ipv4InCidr_iff _ _ (by decide),ipv4InCidr_iff _ _ (by decide),ipv4InCidr_iff _ _ (by decide),
    ipv4InCidr_iff _ _ (by decide),ipv4InCidr_iff _ _ (by decide)]
  simp only [or_assoc]

theorem categorizeAddr_inet6 (v : BitVec 128) (port : Nat) :
    Category.internal (categorizeAddr (.inet6 v port)) = true ↔ (Host.v6 v).Internal := by
  have linkLocal : (0xfe80 <<< 112 : BitVec 128) >>> 118 = 0x3fa := by decide
  have uniqueLocal : (0xfc00 <<< 112 : BitVec 128) >>> 121 = 0x7e := by decide
  simp only [Category.internal,categorizeAddr,Bool.or_eq_true,beq_iff_eq,Host.Internal,InNet,
    Nat.reduceSub,linkLocal,uniqueLocal,or_assoc]

/-- The categories catch an internal host unless it is written in the mapped form. -/
theorem categorizeAddr_iff (addr : SockAddr) :
    Category.internal (categorizeAddr addr) = true ↔ DenotesInternal addr ∧ ¬ MappedInternal addr := by
  cases addr with
  | inet v port =>
    rw [categorizeAddr_inet]
    simp [DenotesInternal,SockAddr.host,MappedInternal]
  | inet6 v port =>
    rw [categorizeAddr_inet6]
    cases mapped : v4Mapped v with
    | true =>
      have outside := v4Mapped_outside mapped
      simp [DenotesInternal,SockAddr.host,MappedInternal,hostOf6,mapped,outside]
    | false => simp [DenotesInternal,SockAddr.host,MappedInternal,hostOf6,mapped]
  | other family => simp [DenotesInternal,SockAddr.host,MappedInternal,Category.internal,categorizeAddr]

theorem denyAddr_clear {net : Platform} {conf : AppConf} {bindAddresses : List Text} {addr : SockAddr}
    (guarded : conf.pushDestinationAllowInternal = false) (clear : denyAddr net conf bindAddresses addr = none) :
    Category.internal (categorizeAddr addr) = false := by
  unfold denyAddr at clear
  dsimp only at clear
  split at clear
  · cases clear
  · rename_i passes
    rw [guarded] at passes
    simpa [Category.internal] using passes

def resolved (lib : CxxUrl) (net : Platform) (url : Text) : List SockAddr :=
  let template := slsSubstituteStreamName url (ascii "streamname")
  match lib.host template,lib.port template with
  | some host,some port => net.resolve host port
  | _,_ => []

/-- For an accepted URL no resolved address denotes an internal host, and the vetted
one is among them, exactly if none is the mapped form of an internal IPv4 host. -/
theorem push_destination_external_iff (lib : CxxUrl) (net : Platform) (url : Text) (conf : AppConf)
    (bindAddresses : List Text) (guarded : conf.pushDestinationAllowInternal = false)
    (accepted : (validatePushUrl lib net url conf bindAddresses).1 = .ok) :
    ((∀ addr ∈ resolved lib net url, ¬ DenotesInternal addr) ∧
        ∃ vetted ∈ resolved lib net url, (validatePushUrl lib net url conf bindAddresses).2 = some vetted) ↔
      ∀ addr ∈ resolved lib net url, ¬ MappedInternal addr := by
  obtain ⟨host,port,query,first,rest,passes⟩ := validatePushUrl_passes lib net url conf bindAddresses accepted
  have answers : resolved lib net url = first::rest := by
    unfold resolved
    dsimp only
    rw [passes.isHost,passes.isPort]
    exact passes.answered
  have uncaught : ∀ addr ∈ first::rest, ¬ (DenotesInternal addr ∧ ¬ MappedInternal addr) := by
    intro addr member
    rw [← categorizeAddr_iff,denyAddr_clear guarded (passes.clear addr member)]
    exact Bool.false_ne_true
  rw [answers]
  constructor
  · rintro ⟨external,_⟩ addr member mapped
    apply external addr member
    cases addr with
    | inet v p => cases mapped
    | inet6 v p => exact ⟨hostOf6 v,rfl,by rw [hostOf6,if_pos mapped.1]; exact mapped.2⟩
    | other family => cases mapped
  · intro plain
    refine ⟨?_,first,List.mem_cons_self,passes.chosen⟩
    intro addr member internal
    exact uncaught addr member ⟨internal,plain addr member⟩

def mappedLoopback : Platform where
  resolveNumeric := fun _ _ => []
  resolveWithTimeout := fun _ _ => some [.inet6 0xffff7f000001 0]
  addrToString := fun _ => ascii "::ffff:127.0.0.1"

theorem push_destination_external_iff_public :
    (validatePushUrl plainUrl oneHost (ascii "srt://example.com:9000?streamid=abc") openConf []).1 = .ok ∧
      ∀ addr ∈ resolved plainUrl oneHost (ascii "srt://example.com:9000?streamid=abc"), ¬ DenotesInternal addr := by
  have accepted : (validatePushUrl plainUrl oneHost (ascii "srt://example.com:9000?streamid=abc") openConf []).1 = .ok := by
    decide
  refine ⟨accepted,((push_destination_external_iff plainUrl oneHost _ openConf [] rfl accepted).mpr ?_).1⟩
  have answers : resolved plainUrl oneHost (ascii "srt://example.com:9000?streamid=abc") = [.inet 0x5db8d822 0] := by
    decide
  rw [answers]
  intro addr member
  rw [List.mem_singleton.mp member]
  exact id

/-- A host whose address record is `::ffff:127.0.0.1` is accepted. -/
theorem mapped_loopback_accepted :
    ¬ ∀ (lib : CxxUrl) (net : Platform) (url : Text) (conf : AppConf) (bindAddresses : List Text),
      conf.pushDestinationAllowInternal = false → (validatePushUrl lib net url conf bindAddresses).1 = .ok →
      (∀ addr ∈ resolved lib net url, ¬ DenotesInternal addr) ∧
        ∃ vetted ∈ resolved lib net url, (validatePushUrl lib net url conf bindAddresses).2 = some vetted := by
  intro claim
  have external := (claim plainUrl mappedLoopback (ascii "srt://example.com:9000?streamid=abc") openConf [] rfl
    (by decide)).1 (.inet6 0xffff7f000001 0) (by decide)
  exact external ⟨.v4 0x7f000001,by decide,by decide⟩

end SrtLiveServer.PushAddress
