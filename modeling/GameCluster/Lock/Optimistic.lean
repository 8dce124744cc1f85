import GameCluster.Lib.Watched

/-!
`OptimisticLockedDo` (`pkg/lock/optimistic_lock.go`): a callback reads under a
Redis `WATCH` and queues commands, an `EXEC` runs them unless the watched key
has been written to since, and a conflict starts the whole again.

The callback is any program over the connection and the pipeline. Other clients
write between any two of its actions, and what they write is the input `env`,
which gives the writes before the client's `n`-th action. Redis is taken at its
word: `EXEC` answers `TxFailedErr` if and only if the key was written to, and no
error of the callback is that one. A pipeline without commands sends nothing.
-/

namespace GameCluster.Lock

open Lib

variable {σ V E : Type} {key : σ → V}

/-- A command, with the error in its reply. -/
structure Cmd (key : σ → V) (E : Type) extends CellWrite key where
  reply : σ → Option E

/-- The callback `fn`. A `read` may look at any key. -/
inductive Fn (key : σ → V) (E : Type) where
  | read (k : σ → Fn key E)
  /-- A command on `tx` itself, outside the pipeline. -/
  | tx (c : Cmd key E) (k : Option E → Fn key E)
  /-- A command on `save`. -/
  | save (c : Cmd key E) (k : Fn key E)
  | ret (err : Option E)

/-- Redis as the client finds it, and the number of the client's next action. -/
structure Conn (σ : Type) where
  redis : Watched σ
  clock : ℕ

/-- The writes of other clients before the next action. -/
def Conn.others (env : ℕ → List (CellWrite key)) (c : Conn σ) : Conn σ :=
  ⟨(env c.clock).foldl Watched.write c.redis, c.clock + 1⟩

/-- What a run of the callback leaves. -/
structure FnOut (key : σ → V) (E : Type) where
  err : Option E
  /-- The commands queued on the pipeline. -/
  save : List (Cmd key E)
  /-- The stores it has read. -/
  reads : List σ
  conn : Conn σ

def Fn.run (env : ℕ → List (CellWrite key)) :
    Fn key E → List (Cmd key E) → List σ → Conn σ → FnOut key E
  | .read k, queued, reads, c =>
    let c := c.others env
    (k c.redis.store).run env queued (reads ++ [c.redis.store]) c
  | .tx cmd k, queued, reads, c =>
    let c := c.others env
    (k (cmd.reply c.redis.store)).run env queued reads
      { c with redis := c.redis.write cmd.toCellWrite }
  | .save cmd k, queued, reads, c => k.run env (queued ++ [cmd]) reads c
  | .ret err, queued, reads, c => ⟨err, queued, reads, c⟩

/-- An executed transaction. -/
structure Transaction (key : σ → V) (E : Type) where
  /-- When the key was put under watch. -/
  start : Conn σ
  cmds : List (Cmd key E)
  reads : List σ
  /-- The store the commands found. -/
  store : σ

inductive Verdict (E : Type) where
  | committed
  /-- `TxFailedErr`. -/
  | conflict
  /-- The pipeline was empty. -/
  | nothing
  | fnError (err : E)
  /-- A command of the transaction got an error reply. -/
  | cmdError (err : E)

structure Attempt (key : σ → V) (E : Type) where
  verdict : Verdict E
  executed : Option (Transaction key E)
  conn : Conn σ

/-- The commands of a transaction in order, with the first error reply. -/
def runCmds : List (Cmd key E) → Watched σ → Watched σ × Option E
  | [], w => (w, none)
  | cmd :: rest, w =>
    let out := runCmds rest (w.write cmd.toCellWrite)
    (out.1, (cmd.reply w.store).or out.2)

/-- `redisCli.Watch` with `txfTarget`. -/
def watch (env : ℕ → List (CellWrite key)) (fn : Fn key E) (c : Conn σ) : Attempt key E :=
  let start := c.others env
  let out := fn.run env [] [] start
  match out.err with
  | some err => ⟨.fnError err, none, out.conn⟩
  | none =>
    if out.save.isEmpty then ⟨.nothing, none, out.conn⟩
    else
      let c := out.conn.others env
      if c.redis.version = start.redis.version then
        let done := runCmds out.save c.redis
        let verdict := match done.2 with
          | none => .committed
          | some err => .cmdError err
        ⟨verdict, some ⟨start, out.save, out.reads, c.redis.store⟩, { c with redis := done.1 }⟩
      else ⟨.conflict, none, c⟩

/-- What `OptimisticLockedDo` returns, how each attempt ended, and the
transactions that were executed. -/
structure Result (key : σ → V) (E : Type) where
  err : Option E
  verdicts : List (Verdict E)
  executed : List (Transaction key E)
  conn : Conn σ

def maxRetries : ℕ := 5

/-- The loop, with the given number of attempts left. -/
def retry (env : ℕ → List (CellWrite key)) (fn : Fn key E) : ℕ → Conn σ → Result key E
  | 0, c => ⟨none, [], [], c⟩
  | n + 1, c =>
    let a := watch env fn c
    match a.verdict with
    | .committed => ⟨none, [.committed], a.executed.toList, a.conn⟩
    | .nothing => ⟨none, [.nothing], a.executed.toList, a.conn⟩
    | .conflict =>
      let rest := retry env fn n a.conn
      ⟨rest.err, .conflict :: rest.verdicts, a.executed.toList ++ rest.executed, rest.conn⟩
    | .fnError err => ⟨some err, [.fnError err], a.executed.toList, a.conn⟩
    | .cmdError err => ⟨some err, [.cmdError err], a.executed.toList, a.conn⟩

def optimisticLockedDo (env : ℕ → List (CellWrite key)) (fn : Fn key E) (c : Conn σ) :
    Result key E :=
  retry env fn maxRetries c

section Effect

variable {env : ℕ → List (CellWrite key)} {fn : Fn key E}

/-- Each store that has been read lies between the two states. -/
def Between (key : σ → V) (w w' : Watched σ) (reads : List σ) : Prop :=
  ∀ s ∈ reads, ∃ u : Watched σ, u.store = s ∧ Watched.Later key w u ∧ Watched.Later key u w'

variable {w : Watched σ} {reads : List σ} {c : Conn σ}

theorem Between.later {w w' w'' : Watched σ} (h : Between key w w' reads)
    (hlater : Watched.Later key w' w'') : Between key w w'' reads := by
  intro s hs
  obtain ⟨u, hu, hbefore, hafter⟩ := h s hs
  exact ⟨u, hu, hbefore, hafter.trans hlater⟩

/-- What was read is still there if the version has not changed. -/
theorem Between.fresh {w w' : Watched σ} (h : Between key w w' reads)
    (hversion : w'.version = w.version) : ∀ seen ∈ reads, key seen = key w'.store := by
  intro seen hseen
  obtain ⟨u, rfl, hbefore, hafter⟩ := h seen hseen
  have hle := hbefore.version_le
  have hle' := hafter.version_le
  exact (hafter.cell_eq (by omega)).symm

theorem others_later (env : ℕ → List (CellWrite key)) (c : Conn σ) :
    Watched.Later key c.redis (c.others env).redis := Watched.later_writes _ _

theorem run_between (fn : Fn key E) {queued : List (Cmd key E)}
    (hlater : Watched.Later key w c.redis) (h : Between key w c.redis reads) :
    Watched.Later key w (fn.run env queued reads c).conn.redis ∧
      Between key w (fn.run env queued reads c).conn.redis (fn.run env queued reads c).reads := by
  induction fn generalizing queued reads c with
  | read k ih =>
    have hothers := others_later env c
    refine ih _ (hlater.trans hothers) ?_
    intro s hs
    obtain hs | hs := List.mem_append.mp hs
    · exact h.later hothers s hs
    · rw [List.mem_singleton.mp hs]
      exact ⟨_, rfl, hlater.trans hothers, .refl _⟩
  | tx cmd k ih =>
    have hwrite := (others_later env c).trans
      (Watched.later_write (c.others env).redis cmd.toCellWrite)
    exact ih _ (hlater.trans hwrite) (h.later hwrite)
  | save cmd k ih => exact ih hlater h
  | ret err => exact ⟨hlater, h⟩

/-- The transaction holds what the callback queued, once it had returned without
an error, and found the key as the callback had read it. -/
structure Transaction.Sound (env : ℕ → List (CellWrite key)) (fn : Fn key E)
    (t : Transaction key E) : Prop where
  returned : (fn.run env [] [] t.start).err = none
  queued : t.cmds = (fn.run env [] [] t.start).save
  fresh : ∀ seen ∈ t.reads, key seen = key t.store
  read : t.reads = (fn.run env [] [] t.start).reads

/-- Redis after an attempt that was discarded. -/
def Conn.discarded (env : ℕ → List (CellWrite key)) (fn : Fn key E) (c : Conn σ) : Conn σ :=
  (fn.run env [] [] (c.others env)).conn.others env

/-- Redis at the start of the `i`-th attempt, when those before it were discarded. -/
def Conn.attempt (env : ℕ → List (CellWrite key)) (fn : Fn key E) (c : Conn σ) : ℕ → Conn σ
  | 0 => c
  | i + 1 => (c.discarded env fn).attempt env fn i

/-- The callback queues something, and the key is written to before the `EXEC`. -/
def Conn.Conflicts (env : ℕ → List (CellWrite key)) (fn : Fn key E) (c : Conn σ) : Prop :=
  (fn.run env [] [] (c.others env)).err = none ∧ (fn.run env [] [] (c.others env)).save ≠ [] ∧
    (c.discarded env fn).redis.version ≠ (c.others env).redis.version

/-- The callback fails, or it queues something, the key is not written to before
the `EXEC` and no command gets an error reply. -/
def Conn.Settles (env : ℕ → List (CellWrite key)) (fn : Fn key E) (c : Conn σ) : Prop :=
  (fn.run env [] [] (c.others env)).err ≠ none ∨
    (fn.run env [] [] (c.others env)).save ≠ [] ∧
      (c.discarded env fn).redis.version = (c.others env).redis.version ∧
      (runCmds (fn.run env [] [] (c.others env)).save (c.discarded env fn).redis).2 = none

theorem Conn.Settles.not_conflicts (h : c.Settles env fn) : ¬c.Conflicts env fn := by
  rintro ⟨herr, -, hversion⟩
  rcases h with hne | ⟨-, heq, -⟩
  · exact hne herr
  · exact hversion heq

/-- Everything an attempt can do. -/
inductive WatchEffect (env : ℕ → List (CellWrite key)) (fn : Fn key E) (c : Conn σ) :
    Attempt key E → Prop
  | committed {t : Transaction key E} {c' : Conn σ} (hsettles : c.Settles env fn)
      (h : t.Sound env fn) : WatchEffect env fn c ⟨.committed, some t, c'⟩
  | fnError {c' : Conn σ} {err : E} (hsettles : c.Settles env fn) :
      WatchEffect env fn c ⟨.fnError err, none, c'⟩
  | conflict (h : c.Conflicts env fn) : WatchEffect env fn c ⟨.conflict, none, c.discarded env fn⟩
  | nothing {c' : Conn σ} (hconflict : ¬c.Conflicts env fn) (hsettles : ¬c.Settles env fn) :
      WatchEffect env fn c ⟨.nothing, none, c'⟩
  | cmdError {t : Transaction key E} {c' : Conn σ} {err : E} (hconflict : ¬c.Conflicts env fn)
      (hsettles : ¬c.Settles env fn) (h : t.Sound env fn) :
      WatchEffect env fn c ⟨.cmdError err, some t, c'⟩

theorem sound_of_version (herr : (fn.run env [] [] (c.others env)).err = none)
    (hversion : (c.discarded env fn).redis.version = (c.others env).redis.version) :
    Transaction.Sound env fn
      ⟨c.others env, (fn.run env [] [] (c.others env)).save,
        (fn.run env [] [] (c.others env)).reads, (c.discarded env fn).redis.store⟩ := by
  have hnone : Between key (c.others env).redis (c.others env).redis [] := by
    intro s hs
    cases hs
  have hbetween : Between key (c.others env).redis (fn.run env [] [] (c.others env)).conn.redis
      (fn.run env [] [] (c.others env)).reads := (run_between fn (.refl _) hnone).2
  exact ⟨herr, rfl, (hbetween.later (others_later env _)).fresh hversion, rfl⟩

theorem watch_effect (env : ℕ → List (CellWrite key)) (fn : Fn key E) (c : Conn σ) :
    WatchEffect env fn c (watch env fn c) := by
  unfold watch
  dsimp only
  cases herr : (fn.run env [] [] (c.others env)).err with
  | some err => exact .fnError (Or.inl (by simp [herr]))
  | none =>
    dsimp only
    split
    · rename_i hempty
      have hnil := List.isEmpty_iff.mp hempty
      exact .nothing (fun h => h.2.1 hnil)
        (fun h => h.elim (fun hne => hne herr) fun hsave => hsave.1 hnil)
    · rename_i hsave
      have hne : (fn.run env [] [] (c.others env)).save ≠ [] := by simpa using hsave
      split
      · rename_i hversion
        have hsound := sound_of_version herr hversion
        cases hdone : (runCmds (fn.run env [] [] (c.others env)).save
            (c.discarded env fn).redis).2 with
        | none =>
          simp only [Conn.discarded] at hdone
          simp only [hdone]
          exact .committed (Or.inr ⟨hne, hversion, hdone⟩) hsound
        | some err =>
          have hsettles : ¬c.Settles env fn := fun h =>
            h.elim (fun hfail => hfail herr) fun hreply => by simp [hdone] at hreply
          simp only [Conn.discarded] at hdone
          simp only [hdone]
          exact .cmdError (fun h => h.2.2 hversion) hsettles hsound
      · rename_i hversion
        exact .conflict ⟨herr, hne, hversion⟩

/-- What a call should report: nil if and only if one transaction was executed,
with what the callback queued and with reads that were still good, and an error
only if nothing was executed. -/
structure Result.Reports (res : Result key E) (env : ℕ → List (CellWrite key)) (fn : Fn key E) :
    Prop where
  nil_iff : res.err = none ↔ ∃ t, res.executed = [t] ∧ t.Sound env fn
  error : res.err ≠ none → res.executed = []

/-- It does not report nil without a transaction, nor an error with one. -/
theorem Result.not_reports {res : Result key E}
    (h : (res.err = none ∧ res.executed = []) ∨
      (res.err ≠ none ∧ ∃ t, res.executed = [t] ∧ t.Sound env fn)) : ¬res.Reports env fn := by
  intro hrep
  rcases h with ⟨herr, hnone⟩ | ⟨herr, hdone⟩
  · obtain ⟨t, hone, -⟩ := hrep.nil_iff.mp herr
    rw [hnone] at hone
    cases hone
  · exact herr (hrep.nil_iff.mpr hdone)

/-- The attempts up to one that settles the call are discarded. -/
def Conn.SettlesWithin (env : ℕ → List (CellWrite key)) (fn : Fn key E) (n : ℕ) (c : Conn σ) :
    Prop :=
  ∃ k < n, (∀ i < k, (c.attempt env fn i).Conflicts env fn) ∧
    (c.attempt env fn k).Settles env fn

theorem Conn.settlesWithin_succ_of_conflicts {n : ℕ} (h : c.Conflicts env fn) :
    c.SettlesWithin env fn (n + 1) ↔ (c.discarded env fn).SettlesWithin env fn n := by
  constructor
  · rintro ⟨k, hk, hbefore, hsettles⟩
    cases k with
    | zero => exact absurd h hsettles.not_conflicts
    | succ k =>
      exact ⟨k, by omega, fun i hi => hbefore (i + 1) (by omega), hsettles⟩
  · rintro ⟨k, hk, hbefore, hsettles⟩
    refine ⟨k + 1, by omega, fun i hi => ?_, hsettles⟩
    cases i with
    | zero => exact h
    | succ i => exact hbefore i (by omega)

theorem Conn.settlesWithin_succ_of_not {n : ℕ} (h : ¬c.Conflicts env fn) :
    c.SettlesWithin env fn (n + 1) ↔ c.Settles env fn := by
  constructor
  · rintro ⟨k, hk, hbefore, hsettles⟩
    cases k with
    | zero => exact hsettles
    | succ k => exact absurd (hbefore 0 (by omega)) h
  · intro hsettles
    exact ⟨0, by omega, fun i hi => absurd hi (by omega), hsettles⟩

theorem retry_reports_iff (env : ℕ → List (CellWrite key)) (fn : Fn key E) (n : ℕ) (c : Conn σ) :
    (retry env fn n c).Reports env fn ↔ c.SettlesWithin env fn n := by
  induction n generalizing c with
  | zero =>
    refine iff_of_false (Result.not_reports (Or.inl ⟨rfl, rfl⟩)) ?_
    rintro ⟨k, hk, -⟩
    omega
  | succ n ih =>
    have heff := watch_effect env fn c
    rw [retry]
    generalize watch env fn c = a at heff
    cases heff with
    | conflict h =>
      rw [Conn.settlesWithin_succ_of_conflicts h, ← ih]
      exact ⟨fun ⟨hnil, herror⟩ => ⟨hnil, herror⟩, fun ⟨hnil, herror⟩ => ⟨hnil, herror⟩⟩
    | committed hsettles h =>
      rw [Conn.settlesWithin_succ_of_not hsettles.not_conflicts]
      refine iff_of_true ⟨⟨fun _ => ⟨_, rfl, h⟩, fun _ => rfl⟩, fun hne => ?_⟩ hsettles
      exact absurd rfl hne
    | fnError hsettles =>
      rw [Conn.settlesWithin_succ_of_not hsettles.not_conflicts]
      refine iff_of_true ⟨⟨fun hnil => ?_, ?_⟩, fun _ => rfl⟩ hsettles
      · cases hnil
      · rintro ⟨t, hone, _⟩
        cases hone
    | nothing hconflict hsettles =>
      rw [Conn.settlesWithin_succ_of_not hconflict]
      exact iff_of_false (Result.not_reports (Or.inl ⟨rfl, rfl⟩)) hsettles
    | cmdError hconflict hsettles h =>
      rw [Conn.settlesWithin_succ_of_not hconflict]
      refine iff_of_false (Result.not_reports (Or.inr ⟨?_, _, rfl, h⟩)) hsettles
      intro hnil
      cases hnil

end Effect

/-- Sets a counter that is the whole store and the watched key. -/
def setCmd (n : ℕ) : Cmd (id : ℕ → ℕ) String where
  apply _ := n
  touches := true
  keeps h := by cases h
  reply _ := none

/-- Another client's write. -/
def otherSet (n : ℕ) : CellWrite (id : ℕ → ℕ) where
  apply _ := n
  touches := true
  keeps h := by cases h

/-- Reads the counter and queues the next value. -/
def increment : Fn (id : ℕ → ℕ) String := .read fun n => .save (setCmd (n + 1)) (.ret none)

/-- Another client writes during the first attempt only. -/
def onceBusy : ℕ → List (CellWrite (id : ℕ → ℕ)) := fun n => if n = 2 then [otherSet 9] else []

end GameCluster.Lock
