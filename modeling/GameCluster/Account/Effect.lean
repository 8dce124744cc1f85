import GameCluster.Account.Service

/-!
What one step of the account nodes and the game nodes can do, with the guards.
-/

namespace GameCluster.Account

open Lib

/-- The steps of a login that only read: what it goes on with. -/
inductive Moves (s : State) (l : Login) : Phase → Prop
  | bindHit {value : String} {t n : Nat} (hp : l.phase = .getBind)
      (hb : s.binds l.req.bindAcc = some (value, t)) (hn : parseUint 64 value = some n) :
      Moves s l (.getHash (.ofNat n))
  | hashHit {accID : UInt64} {acc : Data} (hp : l.phase = .getHash accID)
      (hacc : Data.scan {} (s.hash accID) accFields = (acc, true)) (hpos : 0 < acc.accID) :
      Moves s l (.loaded acc.unmarshalBinds)
  | miss (hp : l.phase = .getBind ∨ ∃ accID, l.phase = .getHash accID) : Moves s l .find
  | found {doc : Doc} (hp : l.phase = .find) (hdoc : doc ∈ s.mongo)
      (hbind : l.req.bindAcc ∈ doc.binds) : Moves s l (.enrich doc)
  | notFound (hp : l.phase = .find) : Moves s l .generate
  | enriched {doc : Doc} (hp : l.phase = .enrich doc) :
      Moves s l (.pipeline
        (State.syncCmds l.req.bindAcc (doc.account.scan (s.hash doc.accID) stateFields).1)
        (doc.account.scan (s.hash doc.accID) stateFields).1)
  | executed {acc : Data} (hp : l.phase = .pipeline [] acc) : Moves s l (.loaded acc)
  | fail : Moves s l .done

/-- A pipeline has three commands. -/
theorem forall_mem_pipeline {P : Cmd → Prop} {hset expire set : Cmd} (hhset : P hset)
    (hexpire : P expire) (hset' : P set) : ∀ c ∈ [hset, expire, set], P c := by
  simp [hhset, hexpire, hset']

/-- The hash after a successful `saveLoginLua`. -/
def Hash.login (h : Hash) (acc : Data) : Hash :=
  ((h.insert .gameID acc.gameID.toNat.repr).insert .seq acc.seq.toNat.repr).insert .passwd
    acc.passwd.toNat.repr

/-- The account that `finalizeLoginSession` lets through. -/
theorem finalizeLoginSession_eq {acc acc' : Data} {req : Request} {d : Discovery}
    {passwd : UInt64} (h : finalizeLoginSession acc req d passwd = .ok acc') :
    ∃ gameID, allocateGameServer acc.gameID d = .ok gameID ∧
      acc' =
        { acc with
          passwd := if acc.passwd = 0 then passwd else acc.passwd
          seq := acc.seq + 1
          gameID } := by
  unfold finalizeLoginSession at h
  split at h
  · cases h
  · split at h
    · cases h
    · rename_i gameID hgame
      exact ⟨gameID, hgame, (Except.ok.inj h).symm⟩

/-- What `finalizeLoginSession` can do for a login that has loaded `acc`. -/
inductive Finalize (s : State) (l : Login) (acc : Data) (d : Discovery) (passwd : UInt64) :
    State → Outcome → Prop
  | rejected {code : LoginCode} : Finalize s l acc d passwd s (.rejected code)
  | failed : Finalize s l acc d passwd s .failed
  | lost {acc' : Data} (hfin : finalizeLoginSession acc l.req d passwd = .ok acc')
      (hseq : (s.hash acc.accID).currentSeq = acc.seq.toNat.repr) :
      Finalize s l acc d passwd (s.setHash acc.accID ((s.hash acc.accID).login acc')) .failed
  | saved {acc' : Data} (hfin : finalizeLoginSession acc l.req d passwd = .ok acc')
      (hseq : (s.hash acc.accID).currentSeq = acc.seq.toNat.repr) :
      Finalize s l acc d passwd
        { s.setHash acc.accID ((s.hash acc.accID).login acc') with
          reqs := s.reqs ++ [⟨acc'.gameID, acc.accID, acc'.seq⟩] } (.saved acc')

/-- What `ClearGameID` can do. -/
inductive Clear (s : State) (m : RoleClear) : State → Bool → Prop
  | ignored : Clear s m s false
  | cleared (hseq : (s.hash m.accID).currentSeq = m.seq.toNat.repr) :
      Clear s m (s.setHash m.accID ((s.hash m.accID).insert .gameID "0")) true

/-- Everything one step can do. -/
inductive Effect (s : State) : Act → State → Prop
  | login {req : Request} :
      Effect s (.login req) { s with logins := s.logins ++ [⟨req, .getBind⟩] }
  | moves {a : Act} {i : Nat} {l : Login} {phase : Phase} (hl : s.logins[i]? = some l)
      (h : Moves s l phase) : Effect s a (s.setPhase i l phase)
  | exec {i : Nat} {l : Login} {c : Cmd} {rest : List Cmd} {acc : Data}
      (hl : s.logins[i]? = some l) (hp : l.phase = .pipeline (c :: rest) acc) (applied : Bool) :
      Effect s (.exec i applied)
        ((if applied then s.command c else s).setPhase i l (.pipeline rest acc))
  | generated {i : Nat} {l : Login} {err : Bool} (hl : s.logins[i]? = some l)
      (hp : l.phase = .generate) :
      Effect s (.generate i err)
        (State.setPhase { s with ids := s.ids + 1 } i l (.insert (.ofNat (s.ids + 1))))
  | insert {i : Nat} {l : Login} {id : UInt64} {fault : Option Fault} {phase : Phase}
      (hl : s.logins[i]? = some l) (hp : l.phase = .insert id)
      (hnew : ∀ d ∈ s.mongo, d.accID ≠ id ∧ l.req.bindAcc ∉ d.binds)
      (hphase : phase = .done ∨ phase = .pipeline (State.registerCmds l.req.bindAcc id)
        { accID := id, binds := [l.req.bindAcc] }) :
      Effect s (.insert i fault)
        (State.setPhase { s with mongo := s.mongo ++ [⟨id, false, [l.req.bindAcc]⟩] } i l phase)
  | finalize {i : Nat} {l : Login} {acc : Data} {d : Discovery} {passwd : UInt64}
      {fault : Option Fault} {s' : State} {outcome : Outcome} (hl : s.logins[i]? = some l)
      (hp : l.phase = .loaded acc)
      (h : Finalize (s.setPhase i l .done) l acc d passwd s' outcome) :
      Effect s (.finalize i d passwd fault)
        ((s.setPhase i l .done).record s' acc.accID l.req.bindAcc outcome)
  | same {a : Act} : Effect s a s
  | bound {accID : UInt64} {k : Nat} {doc : Doc} {bind : String} (hdoc : s.mongo[k]? = some doc)
      (hnew : ∀ j d, j ≠ k → s.mongo[j]? = some d → bind ∉ d.binds) :
      Effect s (.bindNewSDK accID bind)
        { s with
          mongo := s.mongo.set k
            { doc with binds := if bind ∈ doc.binds then doc.binds else doc.binds ++ [bind] }
          writers := s.writers ++ [[.set bind doc.accID.toNat.repr]] }
  | write {j : Nat} {c : Cmd} {rest : List Cmd} (hw : s.writers[j]? = some (c :: rest))
      (applied : Bool) :
      Effect s (.write j applied)
        { (if applied then s.command c else s) with writers := s.writers.set j rest }
  | receive {k : Nat} {m : GameLogin} (hm : s.reqs[k]? = some m) (accepted : Bool) :
      Effect s (.receive k accepted) (s.receive k m accepted)
  | cleanup {g : UInt8} {accID : UInt64} {seq : UInt32} (hseq : s.holds g accID = some seq) :
      Effect s (.cleanup g accID) (s.cleanup g accID seq)
  | roleClear {k : Nat} {m : RoleClear} {fault : Option Fault} {s' : State} {ok : Bool}
      (hm : s.clears[k]? = some m) (h : Clear { s with clears := s.clears.eraseIdx k } m s' ok) :
      Effect s (.roleClear k fault)
        (State.record { s with clears := s.clears.eraseIdx k } s' m.accID ""
          (.cleared m.seq ok))
  | tick {seconds : Nat} : Effect s (.tick seconds) (s.tick seconds)
  | evictHash {accID : UInt64} :
      Effect s (.evictHash accID) { s with hashes := Function.update s.hashes accID none }
  | evictBind {bind : String} :
      Effect s (.evictBind bind) { s with binds := Function.update s.binds bind none }
  | evictIDs : Effect s .evictIDs { s with ids := 0 }

namespace State

variable {s : State} {i : Nat} {l : Login}

theorem getBind_moves (hl : s.logins[i]? = some l) (hp : l.phase = .getBind) (a : Act)
    (err : Bool) : Effect s a (s.getBind i l err) := by
  unfold getBind
  split
  · rename_i value t hb
    split
    · rename_i n hn
      exact .moves hl (.bindHit hp hb hn)
    · exact .moves hl (.miss (Or.inl hp))
  · exact .moves hl (.miss (Or.inl hp))

theorem getHash_moves {accID : UInt64} (hl : s.logins[i]? = some l)
    (hp : l.phase = .getHash accID) (a : Act) (err : Bool) :
    Effect s a (s.getHash i l accID err) := by
  unfold getHash
  split
  rename_i acc ok hscan
  split
  · rename_i h
    obtain ⟨-, rfl, hpos⟩ := h
    exact .moves hl (.hashHit hp hscan hpos)
  · exact .moves hl (.miss (Or.inr ⟨accID, hp⟩))

theorem find_moves (hl : s.logins[i]? = some l) (hp : l.phase = .find) (a : Act) (err : Bool) :
    Effect s a (s.find i l err) := by
  unfold find
  split
  · exact .moves hl .fail
  · split
    · rename_i doc hdoc
      exact .moves hl (.found hp (List.mem_of_find?_eq_some hdoc)
        (by simpa using List.find?_some hdoc))
    · exact .moves hl (.notFound hp)

theorem enrich_moves {doc : Doc} (hl : s.logins[i]? = some l) (hp : l.phase = .enrich doc)
    (a : Act) (err : Bool) :
    Effect s a (s.enrich i l doc err) := by
  unfold enrich
  split
  · exact .moves hl .fail
  · exact .moves hl (.enriched hp)

theorem exec_effect {cmds : List Cmd} {acc : Data} (hl : s.logins[i]? = some l)
    (hp : l.phase = .pipeline cmds acc) (applied : Bool) :
    Effect s (.exec i applied) (s.exec i l cmds acc applied) := by
  cases cmds with
  | nil => exact .moves hl (.executed hp)
  | cons c rest => exact .exec hl hp applied

theorem insert_effect {id : UInt64} (hl : s.logins[i]? = some l) (hp : l.phase = .insert id)
    (fault : Option Fault) :
    Effect s (.insert i fault) (s.insert i l id fault) := by
  have hnew : s.mongo.any (fun d => d.accID = id ∨ l.req.bindAcc ∈ d.binds) = false →
      ∀ d ∈ s.mongo, d.accID ≠ id ∧ l.req.bindAcc ∉ d.binds := by
    intro h d hd
    simpa using List.any_eq_false.mp h d hd
  unfold insert
  cases fault with
  | some f =>
    simp only
    split
    · rename_i h
      exact .insert hl hp (hnew (by simpa using h.2)) (Or.inl rfl)
    · exact .moves hl .fail
  | none =>
    simp only
    split
    · exact .moves hl .fail
    · rename_i h
      exact .insert hl hp (hnew (by simpa using h)) (Or.inr rfl)

theorem saveLoginData_eq (h : Hash) (acc : Data) (oldSeq : UInt32) :
    saveLoginData h acc oldSeq =
      if h.currentSeq = oldSeq.toNat.repr then (h.login acc, true) else (h, false) := rfl

theorem finalizeRun_spec (s : State) (l : Login) (acc : Data) (d : Discovery)
    (passwd : UInt64) (fault : Option Fault) :
    Finalize s l acc d passwd (s.finalizeRun l acc d passwd fault).1
      (s.finalizeRun l acc d passwd fault).2 := by
  unfold finalizeRun
  split
  · exact .rejected
  · rename_i acc' hfin
    rw [saveLoginData_eq]
    by_cases hseq : (s.hash acc.accID).currentSeq = acc.seq.toNat.repr
    · simp only [hseq, if_true]
      cases fault with
      | some f =>
        cases hf : f.applied with
        | true => simpa [hf] using Finalize.lost hfin hseq
        | false => simpa [hf] using Finalize.failed
      | none => exact .saved hfin hseq
    · simp only [hseq, if_false]
      cases fault with
      | some f => simpa using Finalize.failed
      | none => exact .rejected

theorem clearRun_spec (s : State) (m : RoleClear) (fault : Option Fault) :
    Clear s m (s.clearRun m fault).1 (s.clearRun m fault).2 := by
  unfold clearRun clearGameID clearGameLua
  by_cases hseq : (s.hash m.accID).currentSeq = m.seq.toNat.repr
  · by_cases hf : fault.all (·.applied) = true
    · simpa [hseq, hf] using Clear.cleared hseq
    · simpa [hseq, hf] using Clear.ignored
  · simpa [hseq] using Clear.ignored

theorem bindNewSDK_effect {k : Nat} {doc : Doc} (hdoc : s.mongo[k]? = some doc) (accID : UInt64)
    (bind : String) :
    Effect s (.bindNewSDK accID bind) (s.bindNewSDK k doc bind) := by
  unfold bindNewSDK
  split
  · exact .same
  · rename_i hany
    refine .bound hdoc fun j d hj hd hmem => hany ?_
    have hin : d ∈ s.mongo.eraseIdx k := by
      refine List.mem_eraseIdx_iff_getElem?.mpr ⟨j, hj, hd⟩
    exact List.any_eq_true.mpr ⟨d, hin, by simpa using hmem⟩

/-- Each act with its guard, and the function that carries it out. -/
inductive Does (s : State) : Act → State → Prop
  | login {req : Request} :
      Does s (.login req) { s with logins := s.logins ++ [⟨req, .getBind⟩] }
  | getBind {i : Nat} {req : Request} {err : Bool} (hl : s.logins[i]? = some ⟨req, .getBind⟩) :
      Does s (.getBind i err) (s.getBind i ⟨req, .getBind⟩ err)
  | getHash {i : Nat} {req : Request} {accID : UInt64} {err : Bool}
      (hl : s.logins[i]? = some ⟨req, .getHash accID⟩) :
      Does s (.getHash i err) (s.getHash i ⟨req, .getHash accID⟩ accID err)
  | find {i : Nat} {req : Request} {err : Bool} (hl : s.logins[i]? = some ⟨req, .find⟩) :
      Does s (.find i err) (s.find i ⟨req, .find⟩ err)
  | enrich {i : Nat} {req : Request} {doc : Doc} {err : Bool}
      (hl : s.logins[i]? = some ⟨req, .enrich doc⟩) :
      Does s (.enrich i err) (s.enrich i ⟨req, .enrich doc⟩ doc err)
  | exec {i : Nat} {req : Request} {cmds : List Cmd} {acc : Data} {applied : Bool}
      (hl : s.logins[i]? = some ⟨req, .pipeline cmds acc⟩) :
      Does s (.exec i applied) (s.exec i ⟨req, .pipeline cmds acc⟩ cmds acc applied)
  | generate {i : Nat} {req : Request} {err : Bool}
      (hl : s.logins[i]? = some ⟨req, .generate⟩) :
      Does s (.generate i err) (s.generate i ⟨req, .generate⟩ err)
  | insert {i : Nat} {req : Request} {id : UInt64} {fault : Option Fault}
      (hl : s.logins[i]? = some ⟨req, .insert id⟩) :
      Does s (.insert i fault) (s.insert i ⟨req, .insert id⟩ id fault)
  | finalize {i : Nat} {req : Request} {acc : Data} {d : Discovery} {passwd : UInt64}
      {fault : Option Fault} (hl : s.logins[i]? = some ⟨req, .loaded acc⟩) :
      Does s (.finalize i d passwd fault)
        (s.finalize i ⟨req, .loaded acc⟩ acc d passwd fault)
  | bindNewSDK {accID : UInt64} {bind : String} {k : Nat} {doc : Doc}
      (hdoc : s.mongo[k]? = some doc) :
      Does s (.bindNewSDK accID bind) (s.bindNewSDK k doc bind)
  | write {j : Nat} {cmds : List Cmd} {applied : Bool} (hw : s.writers[j]? = some cmds) :
      Does s (.write j applied) (s.write j cmds applied)
  | receive {k : Nat} {m : GameLogin} {accepted : Bool} (hm : s.reqs[k]? = some m) :
      Does s (.receive k accepted) (s.receive k m accepted)
  | cleanup {g : UInt8} {accID : UInt64} {seq : UInt32} (hseq : s.holds g accID = some seq) :
      Does s (.cleanup g accID) (s.cleanup g accID seq)
  | roleClear {k : Nat} {m : RoleClear} {fault : Option Fault} (hm : s.clears[k]? = some m) :
      Does s (.roleClear k fault) (s.roleClear k m fault)
  | tick {seconds : Nat} : Does s (.tick seconds) (s.tick seconds)
  | evictHash {accID : UInt64} :
      Does s (.evictHash accID) { s with hashes := Function.update s.hashes accID none }
  | evictBind {bind : String} :
      Does s (.evictBind bind) { s with binds := Function.update s.binds bind none }
  | evictIDs : Does s .evictIDs { s with ids := 0 }

theorem step_does {s s' : State} {a : Act} (h : s.step a = some s') : Does s a s' := by
  cases a with
  | login | tick | evictHash | evictBind | evictIDs =>
    cases h
    constructor
  | getBind | getHash | find | enrich | exec | generate | insert | finalize =>
    simp only [step] at h
    split at h
    · rename_i hl
      cases h
      constructor
      exact hl
    · cases h
  | bindNewSDK accID bind =>
    simp only [step] at h
    split at h
    · obtain ⟨doc, hdoc, rfl⟩ := Option.map_eq_some_iff.mp h
      exact .bindNewSDK hdoc
    · cases h
  | write | receive | cleanup | roleClear =>
    obtain ⟨_, hfound, rfl⟩ := Option.map_eq_some_iff.mp h
    constructor
    exact hfound

theorem step_effect {s s' : State} {a : Act} (h : s.step a = some s') : Effect s a s' := by
  cases step_does h with
  | login => exact .login
  | getBind hl => exact getBind_moves hl rfl _ _
  | getHash hl => exact getHash_moves hl rfl _ _
  | find hl => exact find_moves hl rfl _ _
  | enrich hl => exact enrich_moves hl rfl _ _
  | exec hl => exact exec_effect hl rfl _
  | generate hl =>
    unfold generate
    split
    · exact .moves hl .fail
    · exact .generated hl rfl
  | insert hl => exact insert_effect hl rfl _
  | finalize hl => exact .finalize hl rfl (finalizeRun_spec _ _ _ _ _ _)
  | bindNewSDK hdoc => exact bindNewSDK_effect hdoc _ _
  | @write j cmds applied hw =>
    cases cmds with
    | nil => exact .same
    | cons c rest => exact .write hw applied
  | receive hm => exact .receive hm _
  | cleanup hseq => exact .cleanup hseq
  | roleClear hm => exact .roleClear hm (clearRun_spec _ _ _)
  | tick => exact .tick
  | evictHash => exact .evictHash
  | evictBind => exact .evictBind
  | evictIDs => exact .evictIDs

end State

end GameCluster.Account
