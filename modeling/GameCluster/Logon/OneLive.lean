import GameCluster.Logon.Simulation

/-!
At most one live role per role ID. A role is live from `r.Run()` until its
`EvtLogout` has been posted. In the runs whose steps are all `serial` no two
live roles share an ID, and outside `initRole` every entry of `role.Mgr`
belongs to the live role of its ID.

The source does not keep the steps `serial`, and `lateKick` is a run that
leaves two live roles: `KickAndWait` finds nothing once the first role has left
the registry, so the `EvtReentry` is processed before the role's `EvtLogout`.
-/

namespace GameCluster

open Lib Protocol

structure OneLive (s : State) : Prop where
  unique : ∀ (i j : Nat) (r q : Role), s.roles[i]? = some r → s.roles[j]? = some q →
    Live r.phase → Live q.phase → r.id = q.id → i = j
  entry : (∀ r stage, s.pc ≠ .starting r stage) → ∀ x i, s.reg.lookup x = some i →
    ∃ r, s.roles[i]? = some r ∧ r.id = x ∧ Live r.phase

/-- At most one role per ID is live, and the registry knows only live roles. -/
theorem one_live_role {s : State} (h : gameServer.Reachable (fun s a => s.serial a) s) :
    OneLive s := by
  have hinv := control_inv (fun _ _ hok => hok) h
  constructor
  · intro i j r q hr hq hrl hql hid
    exact hinv.live_unique (State.control_roles hr) (State.control_roles hq) hrl hql hid
  · intro hpc x i hx
    have hidle : s.control.starting = none := by
      cases hp : s.pc with
      | starting r stage => exact absurd hp (hpc r stage)
      | _ => simp [State.control, hp, LogonPc.starting?]
    obtain ⟨c, hc, hid, hlive⟩ := hinv.entry_live hidle hx
    obtain ⟨r, hr, rfl⟩ := State.exists_of_control_roles hc
    exact ⟨r, hr, hid, hlive⟩

/-- The role's second login arrives from another device; the first role is
kicked, logs out, and only then does the second start. -/
def otherDevice : List Act :=
  firstLogin 7 1 ++
    [.login ⟨7, 2, 2⟩, .logon .onOps, .reentry 0 .kickAndWait] ++ leave 0 ++
    [.reentry 0 .waitDone, .reentry 0 .post, .logon .onOps, .logon .onOps,
      .logon .register, .logon .register, .logon .register]

theorem otherDevice_one_live :
    ∃ s, gameServer.Reachable (fun s a => s.serial a) s ∧
      s.roles.map (fun r => (r.id, r.phase)) = [(7, .done), (7, .started)] ∧ OneLive s := by
  obtain ⟨s, hs, hroles⟩ := Machine.exec_reaches (m := gameServer)
    (fun s a => s.serial a)
    (fun s => s.roles.map (fun r => (r.id, r.phase)) = [(7, .done), (7, .started)])
    otherDevice gameServer_empty (by decide +kernel)
  exact ⟨s, hs, hroles, one_live_role hs⟩

/-- `KickAndWait` runs between the `Unregister` of the first role and its
`EvtLogout`. -/
def lateKick : List Act :=
  firstLogin 7 1 ++
    [.role 0 .cancel, .role 0 .exit, .role 0 .leaveSes, .role 0 .leaveReg, .login ⟨7, 2, 2⟩,
      .logon .onOps, .reentry 0 .kickAndWait, .reentry 0 .post, .logon .onOps,
      .logon .register, .logon .register, .logon .register]

theorem lateKick_two_live : ∃ s, gameServer.Reachable Machine.anyStep s ∧ ¬OneLive s := by
  obtain ⟨s, hs, hroles⟩ := Machine.exec_reaches (m := gameServer) Machine.anyStep
    (fun s => s.roles.map (fun r => (r.id, r.phase)) =
      [(7, .unregistered), (7, .started)]) lateKick gameServer_empty (by decide +kernel)
  obtain ⟨r, rest, hcons, hr, hrest⟩ := List.map_eq_cons_iff.mp hroles
  obtain ⟨q, hq, hqr⟩ := List.map_eq_singleton_iff.mp hrest
  obtain ⟨hrid, hrp⟩ := Prod.mk.inj hr
  obtain ⟨hqid, hqp⟩ := Prod.mk.inj hqr
  refine ⟨s, hs, fun hone => absurd ?_ Nat.zero_ne_one⟩
  exact hone.unique 0 1 r q (by simp [hcons]) (by simp [hcons, hq]) (by rw [hrp]; trivial)
    (by rw [hqp]; trivial) (hrid.trans hqid.symm)

end GameCluster
