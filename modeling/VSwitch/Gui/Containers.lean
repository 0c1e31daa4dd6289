import Mathlib.Data.List.Forall2
import VSwitch.Gui.Session
import VSwitch.Startup.Announcement

/-! From the rows of the window to the ports of the switch: the addresses are joined for the
container, taken apart by its script, and parsed by `main`. -/
namespace VSwitch
open Lib StunClient

/-- The port of the switch that belongs to a row. -/
def BelongsTo (addr : Text) (u : UdpPort) : Prop :=
  ∃ cfg, parseUdpPeer (typedPeer addr) = .ok cfg ∧ cfg.remotePort.toNat = typedPort addr % 65536 ∧
    u.remoteAddr = ⟨(inetPton cfg.remoteIp).getD 0, cfg.remotePort⟩

/-- In every session in which the old containers end in time, the switch in the container is asked
for one port for each row, with the address typed. If it gets to run, it has these ports, and there
are no more than two: the third socket cannot be bound. -/
theorem rows_reach_main {desktop : Desktop} {tapIp : Text} {moves : List Move} {w : MainWindow}
    (h : Run (MainWindow.Steps desktop) (.create tapIp) moves w)
    (hintime : ∀ m ∈ moves, m.event.inTime = true) {args : List Text}
    (hargs : w.controller.process = some args) {glob : Text → List Text} (hglob : Literal glob)
    {machine : Machine} (hsodium : machine.sodiumInit = true) (htap : machine.tap 0 = none) :
    ∃ order argv, order.Perm w.rows ∧ entrypoint glob (containerEnv args) = .ok argv ∧
      setUp machine argv = .ok ⟨["tap0".toList], order.map typedPeer, entrypointStunHost, none⟩ ∧
      ((main machine argv).ending = .running →
        List.Forall₂ BelongsTo order (main machine argv).udpPorts ∧
        (machine.peers.Exclusive (passedPorts machine.peers entrypointStunHost none
          (order.map typedPeer)) → w.rows.length ≤ 2)) := by
  have hsession := MainWindow.session_run h
  obtain ⟨order, hne, horder, rfl⟩ := hsession.carriesAll hintime args hargs
  have hvalid : ∀ p ∈ order, fits validFormat p = true :=
    fun p hp => hsession.accounts.valid p (horder.mem_iff.mp hp)
  have hmatch : ∀ p ∈ order, hasMatch p = true := fun p hp => by simp [hasMatch, hvalid p hp]
  have hlist : (containerEnv (dockerArgs tapIp order)).peers = [','].intercalate order := rfl
  have hkey : keyOf machine.hex2bin (containerEnv (dockerArgs tapIp order)).key = .ok none := rfl
  obtain ⟨argv, hargv, hset⟩ := setUp_entrypoint hglob hne
    (fun p hp => (plain_validFormat (hvalid p hp)).1) (fun p hp => (plain_validFormat (hvalid p hp)).2)
    hlist (.inl rfl) (.inl rfl) hsodium htap hkey
  have hsetup : setUp machine argv =
      .ok ⟨["tap0".toList], order.map typedPeer, entrypointStunHost, none⟩ := hset
  refine ⟨order, argv, horder, hargv, hsetup, fun hrunning => ⟨?_, fun hexclusive => ?_⟩⟩
  · have hports := ports_main hsetup hrunning
    rw [List.forall₂_map_left_iff] at hports
    refine ((List.forall₂_and_left _ _).mpr ⟨hmatch, hports⟩).imp fun addr u hu => ?_
    obtain ⟨hvalid, cfg, hcfg, rfl⟩ := hu
    obtain ⟨cfg', hcfg', -, hport⟩ := parse_typedPeer hvalid
    cases hcfg.symm.trans hcfg'
    exact ⟨cfg, hcfg, hport, rfl⟩
  · rw [← horder.length_eq]
    exact length_le_two (by decide +kernel) (show (5000 : UInt16) ≠ 0 by decide)
      (fun p hp => (parse_typedPeer (hmatch p hp)).imp fun cfg hcfg => ⟨hcfg.1, hcfg.2.1⟩) hexclusive
      ((main_running_iff hsetup).mp hrunning)

def threeAdded : List WindowEvent :=
  let first := "203.0.113.9:5000".toList
  let second := "198.51.100.4:6000".toList
  let third := "192.0.2.5:70000".toList
  [.typed first, .returnPressed [first] [] true, .typed second,
    .returnPressed [second, first] [] true, .typed third, .returnPressed [second, third, first] [] true]

def keepingStart : Machine where
  sodiumInit := true
  hex2bin _ := none
  tap _ := none
  peers := ⟨(reporting fun _ => 5000).probe, fun i => if i = 0 then none else some bindFailed⟩

/-- The window says that three peers were added, and nothing runs. -/
theorem rows_reach_main_three :
    ∃ moves w args argv,
      MainWindow.play aDesktop (.create (initTapIp none 7)) threeAdded = some (moves, w) ∧
      w.statusLabel = "3 peers added".toList ∧ w.controller.process = some args ∧
      entrypoint (fun word => [word]) (containerEnv args) = .ok argv ∧
      (main keepingStart argv).ending ≠ .running := by
  have hcheck : ((MainWindow.play aDesktop (.create (initTapIp none 7)) threeAdded).any fun played =>
      (∀ m ∈ played.1, m.event.inTime = true) ∧ played.2.rows.length = 3 ∧
      played.2.statusLabel = "3 peers added".toList ∧ played.2.controller.process.isSome) = true := by
    decide +kernel
  obtain ⟨⟨moves, w⟩, hplay, hchecks⟩ := (Option.any_eq_true _ _).mp hcheck
  obtain ⟨hintime, hrows, hlabel, hprocess⟩ := of_decide_eq_true hchecks
  obtain ⟨args, hargs⟩ := Option.isSome_iff_exists.mp hprocess
  have hglob : Literal fun word => [word] := fun _ _ => rfl
  have hsodium : keepingStart.sodiumInit = true := rfl
  obtain ⟨order, argv, horder, hargv, -, hports⟩ := rows_reach_main (MainWindow.run_play hplay)
    hintime hargs hglob hsodium rfl
  refine ⟨moves, w, args, argv, hplay, hlabel, hargs, hargv, fun hrunning => ?_⟩
  have htwo := (hports hrunning).2 fun i hi _ hmem => by
    cases i with
    | zero => cases hmem
    | succ i => simp [keepingStart]
  rw [hrows] at htwo
  omega

end VSwitch
