import VSwitch.Network.KeyedPort

/-! Two peers, one key, and an adversary who owns the network: it sees and forges every
datagram but cannot encrypt. The cipher is ideal. -/
namespace VSwitch

/-- The ideal cipher: under the shared key, what was produced decrypts and nothing else. -/
def Aead.ideal (encrypt : Key → Nonce → Bytes → Bytes) (key : Key)
    (produced : List (Nonce × Bytes)) : Aead where
  encrypt := encrypt
  decrypt k nonce ciphertext :=
    (produced.find? fun e => k = key ∧ e.1 = nonce ∧ encrypt key nonce e.2 = ciphertext).map
      Prod.snd

private theorem Aead.ideal_decrypt {encrypt : Key → Nonce → Bytes → Bytes} {key : Key}
    {nonce : Nonce} {produced : List (Nonce × Bytes)} {ciphertext plain : Bytes}
    (h : (ideal encrypt key produced).decrypt key nonce ciphertext = some plain) :
    (nonce, plain) ∈ produced ∧ encrypt key nonce plain = ciphertext := by
  obtain ⟨⟨n, p⟩, hfind, rfl⟩ := Option.map_eq_some_iff.mp h
  have hmatch := List.find?_some hfind
  simp only [true_and, decide_eq_true_eq] at hmatch
  obtain ⟨rfl, henc⟩ := hmatch
  exact ⟨List.mem_of_find?_eq_some hfind, henc⟩

/-- A datagram that a port opens begins with one that was sealed; bytes after it are ignored. -/
theorem UdpPort.opens_ideal {encrypt : Key → Nonce → Bytes → Bytes} {key : Key} {ip : UInt32}
    {produced : List (Nonce × Bytes)} {src : SockAddr} {payload plain : Bytes} {size : Nat}
    (h : opens (Aead.ideal encrypt key produced) src payload size ip key = some plain) :
    src.addr = ip ∧ ∃ nonce, (nonce, plain) ∈ produced ∧
      sealedPacket encrypt key nonce plain <+: payload := by
  rw [opens, Option.ite_none_right_eq_some] at h
  obtain ⟨⟨hsrc, ⟨-, hle⟩, hmin, -⟩, hdec⟩ := h
  obtain ⟨hmem, henc⟩ := Aead.ideal_decrypt hdec
  have hn : npubBytes = 24 := rfl
  have hlen : 4 + be32 payload ≤ payload.length := hle.trans (Nat.min_le_left _ _)
  have hcipher : npubBytes + (encrypt key (copyOut 24 payload 4) plain).length = be32 payload := by
    rw [henc, List.length_take, List.length_drop]
    omega
  have hsealed : sealedPacket encrypt key (copyOut 24 payload 4) plain =
      payload.take (4 + (npubBytes + (be32 payload - npubBytes))) := by
    simp only [sealedPacket, hcipher]
    rw [henc, htonl_be32 (by omega), ofFn_copyOut (by omega), List.take_add, List.take_add,
      List.append_assoc, List.drop_drop]
    rfl
  exact ⟨hsrc, _, hmem, hsealed ▸ List.take_prefix _ _⟩

inductive Peer where
  | a
  | b
  deriving DecidableEq

/-- The two keyed ports of a link. What travels between them is the adversary's choice. -/
abbrev Link := Peer → PortLog

namespace Link
variable (encrypt : Key → Nonce → Bytes → Bytes) (w : SizeT) (size : Nat) (key : Key)
variable (remote : Peer → SockAddr) (nonces : Peer → Nat → Nonce)

def start : Link := fun x => PortLog.start ⟨remote x, some key⟩

def produced (link : Link) : List (Nonce × Bytes) := (link .a).written ++ (link .b).written

/-- One peer acts. -/
def step (link : Link) (event : Peer × PortEvent) : Link := fun x =>
  if x = event.1 then
    (link x).step (Aead.ideal encrypt key link.produced) w size (nonces x) event.2
  else link x

def run (events : List (Peer × PortEvent)) : Link :=
  events.foldl (step encrypt w size key nonces) (start key remote)

variable {encrypt w size key remote nonces}

private theorem mem_produced {link : Link} {e : Nonce × Bytes} (h : e ∈ link.produced) :
    ∃ y, e ∈ (link y).written := by
  rcases List.mem_append.mp h with ha | hb
  · exact ⟨.a, ha⟩
  · exact ⟨.b, hb⟩

theorem run_concat (past : List (Peer × PortEvent)) (event : Peer × PortEvent) :
    run encrypt w size key remote nonces (past ++ [event]) =
      step encrypt w size key nonces (run encrypt w size key remote nonces past) event :=
  List.foldl_concat ..

private theorem run_keyedFor (events : List (Peer × PortEvent)) (x : Peer) :
    (run encrypt w size key remote nonces events x).port.KeyedFor (remote x).addr key := by
  induction events using List.reverseRecOn with
  | nil => exact ⟨rfl, rfl⟩
  | append_singleton past event ih =>
    rw [run_concat, step]
    split_ifs
    · exact PortLog.step_keyedFor ih _
    · exact ih

variable (encrypt w size key remote nonces) in
private theorem step_sealed (past : List (Peer × PortEvent)) (event : Peer × PortEvent) (x : Peer) :
    let before :=
  run encrypt w size key remote nonces past
    let after := run encrypt w size key remote nonces (past ++ [event])
    (after x).port = (before x).port ∧ (after x).delivered = (before x).delivered ∨
      ∃ src payload plain, event = (x, .read (.datagram src payload)) ∧
        src.addr = (remote x).addr ∧
        (∃ y nonce, (nonce, plain) ∈ (before y).written ∧
          UdpPort.sealedPacket encrypt key nonce plain <+: payload) ∧
        (after x).port = (before x).port.setPort src.port ∧
        ∀ frame ∈ (after x).delivered, frame ∈ (before x).delivered ∨ frame = plain := by
  intro before after
  have hafter : after x = step encrypt w size key nonces before event x := by
    rw [← run_concat]
  obtain ⟨who, event⟩ := event
  rw [hafter, step]
  by_cases hx : x = who
  · subst hx
    rw [if_pos rfl]
    rcases PortLog.step_opens (run_keyedFor past x) event with
      hsame | ⟨src, payload, plain, rfl, hopen, hport, hframes⟩
    · exact .inl hsame
    · obtain ⟨hsrc, nonce, hmem, hprefix⟩ := UdpPort.opens_ideal hopen
      obtain ⟨y, hy⟩ := mem_produced hmem
      exact .inr ⟨src, payload, plain, rfl, hsrc, ⟨y, nonce, hy, hprefix⟩, hport, hframes⟩
  · rw [if_neg hx]
    exact .inl ⟨rfl, rfl⟩

private theorem delivered_earlier (events : List (Peer × PortEvent)) (x : Peer) :
    ∀ frame ∈ (run encrypt w size key remote nonces events x).delivered,
      ∃ past recv rest, events = past ++ (x, .read recv) :: rest ∧
        ∃ y nonce, (nonce, frame) ∈ (run encrypt w size key remote nonces past y).written := by
  induction events using List.reverseRecOn with
  | nil => exact fun _ h => absurd h List.not_mem_nil
  | append_singleton past event ih =>
    intro frame hframe
    have hold : frame ∈ (run encrypt w size key remote nonces past x).delivered →
        ∃ past' recv rest, past ++ [event] = past' ++ (x, .read recv) :: rest ∧
          ∃ y nonce, (nonce, frame) ∈
            (run encrypt w size key remote nonces past' y).written := fun h => by
      obtain ⟨past', recv, rest, rfl, hwritten⟩ := ih frame h
      exact ⟨past', recv, rest ++ [event], by simp, hwritten⟩
    rcases step_sealed encrypt w size key remote nonces past event x with
      ⟨-, hsame⟩ | ⟨src, payload, plain, rfl, -, ⟨y, nonce, hy, -⟩, -, hframes⟩
    · exact hold (hsame ▸ hframe)
    · rcases hframes frame hframe with h | rfl
      · exact hold h
      · exact ⟨past, .datagram src payload, [], rfl, y, nonce, hy⟩

end Link

/-- What the shared key does promise: a delivered frame was written earlier by one of the
two peers, and a port moves only on a datagram from the peer's address that begins with
one that either of them sealed earlier. -/
theorem secure_link (encrypt : Key → Nonce → Bytes → Bytes) (w : SizeT) (size : Nat) (key : Key)
    (remote : Peer → SockAddr) (nonces : Peer → Nat → Nonce) (events : List (Peer × PortEvent))
    (x : Peer) :
    let run := Link.run encrypt w size key remote nonces
    (∀ frame ∈ (run events x).delivered, ∃ past recv rest,
      events = past ++ (x, .read recv) :: rest ∧
        ∃ y nonce, (nonce, frame) ∈ (run past y).written) ∧
    ∀ past event, past ++ [event] <+: events →
      (run (past ++ [event]) x).port ≠ (run past x).port →
        ∃ src payload, event = (x, .read (.datagram src payload)) ∧
          src.addr = (remote x).addr ∧
          (run (past ++ [event]) x).port = (run past x).port.setPort src.port ∧
          ∃ y nonce frame, (nonce, frame) ∈ (run past y).written ∧
            UdpPort.sealedPacket encrypt key nonce frame <+: payload := by
  intro run
  refine ⟨Link.delivered_earlier events x, ?_⟩
  intro past event _ hmoved
  rcases Link.step_sealed encrypt w size key remote nonces past event x with
    ⟨hsame, -⟩ | ⟨src, payload, plain, rfl, hsrc, ⟨y, nonce, hy, hprefix⟩, hport, -⟩
  · exact absurd hsame hmoved
  · exact ⟨src, payload, rfl, hsrc, hport, y, nonce, plain, hy, hprefix⟩

/-- Peer `b` never writes. The datagram of `a` comes back under the address of `b`, with a
byte appended: `a` delivers its own frame and moves its port to 9999. -/
theorem secure_link_reflection :
    let remote : Peer → SockAddr
      | .a => ⟨0x0a000002, 5000⟩
      | .b => ⟨0x0a000001, 5000⟩
    let frame : Bytes := List.replicate 14 0
    let key : Key := fun _ => 7
    let wire := UdpPort.sealedPacket zeroTag.encrypt key (fun _ => 1) frame
    let link := Link.run zeroTag.encrypt .bits64 1600 key remote (fun _ _ _ => 1)
      [(.a, .write frame), (.a, .read (.datagram ⟨0x0a000002, 9999⟩ (wire ++ [0])))]
    frame ∈ (link .a).delivered ∧ (link .b).written = [] ∧
      (link .a).port.remoteAddr.port = 9999 ∧
      wire ++ [0] ∉ ((link .a).sent ++ (link .b).sent).map Sent.payload := by
  decide +kernel

end VSwitch
