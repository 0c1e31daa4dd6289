import VSwitch.Fabric.Refinement
import VSwitch.Network.ReadBounds

/-! The MTU that `entrypoint.sh` gives the TAP device, against what the switch adds to a frame:
no datagram is too long for an Ethernet of 1500 bytes, and no write fails. -/
namespace VSwitch
open Lib EthernetFrame

/-- `ip link set tap0 mtu`, which depends on whether there is a key. -/
def tapMtu (key : Option Key) : Nat := if key.isSome then 1414 else 1454

/-- The longest frame of a TAP device: the Ethernet header does not count for the MTU. -/
def tapFrame (key : Option Key) : Nat := 14 + tapMtu key

/-- What remains for a UDP payload in 1500 bytes, after 20 of IPv4 and 8 of UDP. -/
def maxPayload : Nat := 1500 - 20 - 8

section Sizes
variable {A : Aead} {u : UdpPort} {nonce : Nonce} {f : Bytes} {src : SockAddr}

private theorem UdpPort.length_encapsulate (hA : A.Lawful) :
    (u.encapsulate A nonce f).length =
      4 + f.length + if u.key.isSome then npubBytes + aBytes else 0 := by
  cases hk : u.key with
  | none =>
    simp only [encapsulate, hk, List.length_append, Option.isSome_none, Bool.false_eq_true, if_false]
    rfl
  | some key =>
    have hcipher := hA.length_encrypt key nonce f
    simp only [encapsulate, hk, sealedPacket, htonl, List.length_append, List.length_cons,
      List.length_nil, List.length_ofFn, hcipher, Option.isSome_some, if_true, npubBytes]
    omega

private theorem UdpPort.encapsulate_fits_iff (hA : A.Lawful) :
    (u.encapsulate A nonce f).length ≤ maxPayload ↔ f.length ≤ tapFrame u.key := by
  obtain ⟨hn, ha, -, -⟩ := packet_sizes
  rw [length_encapsulate hA, tapFrame, tapMtu, maxPayload]
  split_ifs <;> omega

private theorem Device.frame_fits (hA : A.Shortens) {payload : Bytes}
    (hpayload : payload.length ≤ maxPayload)
    (h : (Device.udp u).frame A (.datagram src payload) = some f) :
    f.length ≤ tapFrame u.key := by
  obtain ⟨hn, ha, -, -⟩ := packet_sizes
  have haccepted := (Option.filter_eq_some_iff.mp h).1
  have hmin : min payload.length maxPacket ≤ payload.length := Nat.min_le_left _ _
  rw [maxPayload] at hpayload
  cases hk : u.key with
  | none =>
    simp only [Device.accepted, hk] at haccepted
    obtain ⟨⟨-, ⟨-, hle⟩, -⟩, hframe⟩ := Option.ite_none_right_eq_some.mp haccepted
    have hlen : f.length ≤ be32 payload := by
      rw [← Option.some.inj hframe]
      exact List.length_take_le _ _
    have hplain : tapFrame (none : Option Key) = 1468 := rfl
    omega
  | some key =>
    simp only [Device.accepted, hk] at haccepted
    have hlen := UdpPort.length_opens hA haccepted
    obtain ⟨⟨-, ⟨-, hle⟩, -⟩, -⟩ := UdpPort.opens_eq_some.mp haccepted
    have hsealed : tapFrame (some key) = 1428 := rfl
    omega

private theorem tapFrame_le (key : Option Key) :
    42 ≤ tapFrame key ∧ tapFrame key ≤ maxPlaintext := by
  have hp : maxPlaintext = 1518 := rfl
  rw [tapFrame, tapMtu]
  split_ifs <;> omega

end Sizes

namespace Wire
variable {V T : Type} [DecidableEq V] [DecidableEq T] {A : Aead} {w : SizeT}
variable {wiring : Wiring V T} {wire wire' : Wire V T} {v : V} {tag : Option Nat}
variable {r : Reading (NetPort V T)} {a : WireAction V T}

/-- Nothing on the way or written is longer than the MTU allows. -/
structure Fits (wiring : Wiring V T) (wire : Wire V T) : Prop where
  devices : ∀ v q, (wiring.device v q).SamePeer ((wire.loops v).device q)
  flight : ∀ p ∈ wire.flight, p.payload.length ≤ maxPayload
  writes : ∀ y ∈ wire.writes, y.data.length ≤ tapFrame (wiring.key y.switch)

omit [DecidableEq V] [DecidableEq T] in
private theorem fits_start (now : V → Int) : Fits wiring (start wiring now) where
  devices := fun _ _ => .refl _
  flight := fun _ h => absurd h List.not_mem_nil
  writes := fun _ h => absurd h List.not_mem_nil

omit [DecidableEq T] in
theorem Fits.take (h : Fits wiring wire) (p : Parcel V) : Fits wiring (wire.take p) :=
  ⟨h.devices, fun p' hp' => h.flight p' (List.mem_of_mem_erase hp'), h.writes⟩

omit [DecidableEq V] [DecidableEq T] in
private theorem key_of_link
    (hdevice : ∀ q, (wiring.device v q).SamePeer ((wire.loops v).device q)) (x : V) :
    ∃ u, (wire.loops v).device (.link x) = .udp u ∧ u.key = wiring.key v := by
  have hsame := hdevice (.link x)
  cases hd : (wire.loops v).device (.link x) with
  | tap =>
    rw [hd] at hsame
    exact absurd hsame id
  | udp u =>
    rw [hd] at hsame
    exact ⟨u, rfl, hsame.1.symm⟩

/-- A read of a frame that fits sends and writes what fits. -/
theorem Fits.read (hA : A.Lawful) (h : Fits wiring wire)
    (hfits : ∀ f, ((wire.loops v).device r.port).frame A r.recv = some f →
      f.length ≤ tapFrame (wiring.key v))
    (hr : wire.read A w v tag r = some wire') : Fits wiring wire' := by
  obtain ⟨served, hserve, rfl⟩ := read_eq_some.mp hr
  have hdevice (q : NetPort V T) :
      (wiring.device v q).SamePeer ((wire.loops v).deviceAfter A w r q) :=
    EventLoop.samePeer_deviceAfter (h.devices v q)
  have hserved : (∀ q, (wiring.device v q).SamePeer (served.loop.device q)) ∧
      (∀ y ∈ served.writes, y.2.length ≤ tapFrame (wiring.key v)) ∧
      ∃ nonces, served.sent = EventLoop.datagrams A served.loop.device nonces served.writes := by
    cases hf : ((wire.loops v).device r.port).frame A r.recv with
    | none =>
      rw [EventLoop.serve_quiet hf] at hserve
      cases hserve
      exact ⟨hdevice, fun _ hy => absurd hy List.not_mem_nil, r.nonces, rfl⟩
    | some f =>
      obtain ⟨-, -, rfl, -⟩ := EventLoop.serve_frame_ok hf hserve
      refine ⟨hdevice, ?_, r.nonces, rfl⟩
      rintro ⟨q, d⟩ hy
      rcases VirtualSwitch.mem_switchFrame_writes _ _ _ _ _ hy with ⟨rfl, -⟩ | ⟨-, e, -, rfl⟩
      · exact hfits d hf
      · rw [length_arpReplyFrame]
        exact (tapFrame_le _).1
  obtain ⟨hdevice', hwrites, nonces, hsent⟩ := hserved
  refine ⟨fun u q => ?_, fun p hp => ?_, fun y hy => ?_⟩
  · simp only [absorb]
    split_ifs with hu
    · exact hu ▸ hdevice' q
    · exact h.devices u q
  · rcases List.mem_append.mp hp with hold | hnew
    · exact h.flight p hold
    · obtain ⟨⟨q, sent⟩, hmem, hparcel⟩ := List.mem_filterMap.mp hnew
      rw [hsent, EventLoop.datagrams] at hmem
      obtain ⟨⟨q', d⟩, hw, hdatagram⟩ := List.mem_filterMap.mp hmem
      obtain ⟨s, hs, hsame⟩ := Option.map_eq_some_iff.mp hdatagram
      cases hsame
      cases q' with
      | tap t => cases hparcel
      | link x =>
        cases hparcel
        have hsock := hdevice' (.link x)
        cases hd : served.loop.device (.link x) with
        | tap =>
          rw [hd] at hsock
          exact absurd hsock id
        | udp u =>
          rw [hd] at hsock hs
          cases hs
          apply (UdpPort.encapsulate_fits_iff hA).mpr
          rw [← hsock.1]
          exact hwrites _ hw
  · rcases List.mem_append.mp hy with hold | hnew
    · exact h.writes y hold
    · obtain ⟨⟨q, d⟩, hw, rfl⟩ := List.mem_map.mp hnew
      exact hwrites _ hw

omit [DecidableEq V] [DecidableEq T] in
/-- Of what fits, a link takes out what fits. -/
theorem Fits.frame (hA : A.Shortens) (h : Fits wiring wire) {x : V} {src : SockAddr}
    {payload f : Bytes} (hpayload : payload.length ≤ maxPayload)
    (hf : ((wire.loops v).device (.link x)).frame A (.datagram src payload) = some f) :
    f.length ≤ tapFrame (wiring.key v) := by
  obtain ⟨u, hu, hk⟩ := key_of_link (h.devices v) x
  rw [hu] at hf
  rw [← hk]
  exact Device.frame_fits hA hpayload hf

omit [DecidableEq V] [DecidableEq T] in
theorem Fits.inject (h : Fits wiring wire) (i : Injection V T) : Fits wiring (wire.inject i) :=
  ⟨h.devices, h.flight, h.writes⟩

omit [DecidableEq V] [DecidableEq T] in
theorem Fits.tap (h : Fits wiring wire) {t : T} {recv : Recv} {f : Bytes}
    (hf : ((wire.loops v).device (.tap t)).frame A recv = some f) :
    ∃ src payload, recv = .datagram src payload ∧ f = payload.take maxFrameSize := by
  have hsame := h.devices v (.tap t)
  cases hd : (wire.loops v).device (.tap t) with
  | udp u =>
    rw [hd] at hsame
    exact absurd hsame id
  | tap =>
    rw [hd] at hf
    have haccepted := (Option.filter_eq_some_iff.mp hf).1
    cases recv with
    | error => cases haccepted
    | datagram src payload =>
      cases haccepted
      exact ⟨src, payload, rfl, rfl⟩

theorem Fits.step (hA : A.Lawful) (hshort : A.Shortens) (h : Fits wiring wire)
    (hstep : wire.step A w wiring a = some wire')
    (hmtu : ∀ i ∈ wire'.injected, i.data.length ≤ tapFrame (wiring.key i.switch)) :
    Fits wiring wire' := by
  cases a with
  | inject i now nonces =>
    obtain ⟨-, hr⟩ := Option.ite_none_right_eq_some.mp hstep
    have hi : i ∈ wire'.injected := by
      obtain ⟨served, -, rfl⟩ := read_eq_some.mp hr
      exact List.mem_append_right _ (List.mem_singleton_self i)
    refine (h.inject i).read hA (fun f hf => ?_) hr
    obtain ⟨_, _, hrecv, rfl⟩ := (h.inject i).tap hf
    cases hrecv
    exact (List.length_take_le' _ _).trans (hmtu i hi)
  | deliver p srcPort now nonces =>
    obtain ⟨hp, hr⟩ := Option.ite_none_right_eq_some.mp hstep
    exact (h.take p).read hA (fun f hf => (h.take p).frame hshort (h.flight p hp) hf) hr
  | stray v port recv =>
    obtain ⟨hquiet, hr⟩ := Option.ite_none_right_eq_some.mp hstep
    exact h.read hA (fun f hf => by cases hquiet.symm.trans hf) hr
  | timeout v =>
    cases hstep
    refine ⟨fun u q => ?_, fun p hp => ?_, fun y hy => ?_⟩
    · simp only [absorb]
      split_ifs with hu
      · exact hu ▸ h.devices v q
      · exact h.devices u q
    · rcases List.mem_append.mp hp with hold | hnew
      · exact h.flight p hold
      · obtain ⟨x, rfl⟩ := eq_punch_of_mem hnew
        have hpunch : [0, 0, 0, 0].length ≤ maxPayload := by decide
        exact hpunch
    · rcases List.mem_append.mp hy with hold | hnew
      · exact h.writes y hold
      · cases hnew
  | lose p =>
    obtain ⟨-, hwire⟩ := Option.ite_none_right_eq_some.mp hstep
    cases hwire
    exact h.take p
  | duplicate p =>
    obtain ⟨hp, hwire⟩ := Option.ite_none_right_eq_some.mp hstep
    cases hwire
    refine ⟨h.devices, fun p' hp' => ?_, h.writes⟩
    rcases List.mem_cons.mp hp' with rfl | hold
    · exact h.flight _ hp
    · exact h.flight p' hold

private theorem step_injected (hstep : wire.step A w wiring a = some wire') :
    wire.injected <+: wire'.injected := by
  have hread {start : Wire V T} {v : V} {tag : Option Nat} {r : Reading (NetPort V T)}
      (hr : start.read A w v tag r = some wire') : wire'.injected = start.injected := by
    obtain ⟨served, -, rfl⟩ := read_eq_some.mp hr
    rfl
  cases a with
  | inject i now nonces =>
    rw [hread (Option.ite_none_right_eq_some.mp hstep).2]
    exact List.prefix_append _ _
  | deliver p srcPort now nonces =>
    rw [hread (Option.ite_none_right_eq_some.mp hstep).2]
    exact List.prefix_refl _
  | stray v port recv =>
    rw [hread (Option.ite_none_right_eq_some.mp hstep).2]
  | timeout v =>
    cases hstep
    exact List.prefix_refl _
  | lose p =>
    cases (Option.ite_none_right_eq_some.mp hstep).2
    exact List.prefix_refl _
  | duplicate p =>
    cases (Option.ite_none_right_eq_some.mp hstep).2
    exact List.prefix_refl _

private theorem fits_run (hA : A.Lawful) (hshort : A.Shortens) {now : V → Int}
    {actions : List (WireAction V T)} (hrun : Run (Steps A w wiring) (start wiring now) actions wire)
    (hmtu : ∀ i ∈ wire.injected, i.data.length ≤ tapFrame (wiring.key i.switch)) :
    Fits wiring wire := by
  refine hrun.invariant (I := fun n =>
    (∀ i ∈ n.injected, i.data.length ≤ tapFrame (wiring.key i.switch)) → Fits wiring n)
    ?_ (fun _ => fits_start now) hmtu
  intro n a n' ih hstep hmtu'
  exact (ih fun i hi => hmtu' i ((step_injected hstep).subset hi)).step hA hshort hstep hmtu'

variable (A w wiring wire v tag r) in
private theorem read_ok (hfits : ∀ f, ((wire.loops v).device r.port).frame A r.recv = some f →
      14 ≤ f.length ∧ f.length ≤ tapFrame (wiring.key v)) :
    ∃ wire', wire.read A w v tag r = some wire' := by
  have hharmless : (wire.loops v).Harmless A (.reading r) := fun f hf =>
    ⟨(hfits f hf).1, fun _ _ _ _ => (hfits f hf).2.trans (tapFrame_le _).2⟩
  obtain ⟨served, hserve, -⟩ := ((wire.loops v).handles_iff (A := A) (w := w) _).mpr hharmless
  exact ⟨_, read_eq_some.mpr ⟨served, hserve, rfl⟩⟩

end Wire

/-- With the MTU of `entrypoint.sh`, in every run of any network of switches, with or without
keys: no datagram in flight needs fragmentation, every frame fits the TAP device that it is
written to, and no frame with a whole header ends a switch. The MTU could not be larger. -/
theorem mtu_suffices {V T : Type} [DecidableEq V] [DecidableEq T] {A : Aead} (hA : A.Lawful)
    (hshort : A.Shortens) {w : SizeT} {wiring : Wiring V T} {now : V → Int}
    {actions : List (WireAction V T)} {wire : Wire V T}
    (hrun : Run (Wire.Steps A w wiring) (Wire.start wiring now) actions wire)
    (hmtu : ∀ i ∈ wire.injected, i.data.length ≤ tapFrame (wiring.key i.switch)) :
    (∀ p ∈ wire.flight, p.payload.length ≤ maxPayload) ∧
    (∀ y ∈ wire.writes, y.data.length ≤ tapFrame (wiring.key y.switch)) ∧
    (∀ p ∈ wire.flight, (∀ c, wiring.carried A p = some c → 14 ≤ c.data.length) →
      ∀ srcPort now nonces, ∃ wire',
        wire.step A w wiring (.deliver p srcPort now nonces) = some wire') ∧
    (∀ i, .tap i.tap ∈ wiring.topo.ports i.switch → 14 ≤ i.data.length →
      i.data.length ≤ tapFrame (wiring.key i.switch) →
      ∀ now nonces, ∃ wire', wire.step A w wiring (.inject i now nonces) = some wire') ∧
    ∀ (u : UdpPort) nonce f,
      (u.encapsulate A nonce f).length ≤ maxPayload ↔ f.length ≤ tapFrame u.key := by
  have h := Wire.fits_run hA hshort hrun hmtu
  refine ⟨h.flight, h.writes, ?_, ?_, fun u nonce f => UdpPort.encapsulate_fits_iff hA⟩
  · intro p hp hlong srcPort now nonces
    have hcarried := Wire.frame_of_carried (A := A) h.devices p srcPort
    obtain ⟨wire', hread⟩ := Wire.read_ok A w wiring (wire.take p) p.dst p.tag
      ⟨.link p.src, .datagram ⟨(wiring.remote p.dst p.src).addr, srcPort⟩ p.payload, now, nonces⟩
      (fun f hf => ⟨hlong _ (hcarried.symm.trans (congrArg _ hf)),
        h.frame hshort (h.flight p hp) hf⟩)
    exact ⟨wire', (if_pos hp).trans hread⟩
  · intro i hport hlen hfit now nonces
    have hsize : maxFrameSize = 1600 := rfl
    have hmax : i.data.length ≤ maxPlaintext := hfit.trans (tapFrame_le _).2
    have hp : maxPlaintext = 1518 := rfl
    obtain ⟨wire', hread⟩ := Wire.read_ok A w wiring (wire.inject i) i.switch
      (some wire.injected.length) ⟨.tap i.tap, .datagram ⟨0, 0⟩ i.data, now, nonces⟩
      (fun f hf => by
        obtain ⟨_, _, hrecv, rfl⟩ := (h.inject i).tap hf
        cases hrecv
        rw [List.take_of_length_le (by omega)]
        exact ⟨hlen, hfit⟩)
    have hne : i.data ≠ [] := List.ne_nil_of_length_pos (by omega)
    have hcontains := List.contains_iff_mem.mpr hport
    exact ⟨wire', (if_pos ⟨hcontains, hne, by omega⟩).trans hread⟩

/-- The broadcast between two switches with a key. -/
theorem mtu_suffices_greeting : ∃ actions wire,
    Run (Wire.Steps zeroTag .bits64 sealedPair) (Wire.start sealedPair fun _ => 0) actions wire ∧
      ∀ y ∈ wire.writes, y.data.length ≤ 1428 := by
  obtain ⟨wire, hrun, hinjected, -⟩ := greeting_run
  have hmtu : ∀ i ∈ wire.injected, i.data.length ≤ tapFrame (sealedPair.key i.switch) := by
    rw [hinjected]
    decide
  exact ⟨_, wire, hrun, (mtu_suffices zeroTag_lawful zeroTag_shortens hrun hmtu).2.1⟩

end VSwitch
