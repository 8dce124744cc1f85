import GameCluster.Account.Sequence
import GameCluster.Lib.Bytes

/-!
Which game server hosts a role. A game server has a claim to an account's role
from the moment an `S2SReqLogin` for it is sent until `cleanup`. While the hash is
there, the stored `game_id` names the one with a claim: a login that is to succeed
must know the stored `seq`, and then it knows the stored `game_id` and goes there.

The hash lives seven days from the last time the account was loaded from Mongo,
however often the player logs in, and then nothing is left of `seq` and `game_id`.
-/

namespace GameCluster.Account

open Lib

/-- Game server `g` has a claim to the account's role. -/
def State.Claims (s : State) (a : UInt64) (g : UInt8) : Prop :=
  (s.holds g a).isSome ∨ ∃ m ∈ s.reqs, m.accID = a ∧ m.gameID = g

/-- Every game server stays visible in `discovery`, and keys only expire. -/
def visible (_ : State) : Act → Prop
  | .finalize _ d _ _ => d.lastExists = true
  | .evictHash _ => False
  | .evictBind _ => False
  | .evictIDs => False
  | _ => True

/-- No game server holds or is about to hold the role, no `S2SRoleClear` for it is
under way, and no login has read the account. -/
def State.idle (s : State) (a : UInt64) : Prop :=
  (∀ g, s.holds g a = none) ∧ (∀ m ∈ s.reqs, m.accID ≠ a) ∧ (∀ m ∈ s.clears, m.accID ≠ a) ∧
    ∀ l ∈ s.logins, ∀ acc ∈ l.phase.account, acc.accID ≠ a

/-- The account's hash goes only while the role is idle, a game server gives the
role back only when every `S2SReqLogin` under way for it is from a later login,
the picked game server is not number zero, and `Seq` does not wrap around. -/
def steady (a : UInt64) (s : State) : Act → Prop
  | .finalize i d _ _ =>
    d.lastExists = true ∧ d.select ≠ some 0 ∧
      ∀ l ∈ s.logins[i]?, ∀ acc ∈ l.phase.account, acc.accID = a → acc.seq.toNat + 1 < 2 ^ 32
  | .cleanup g b =>
    match s.holds g a with
    | some seq => b = a → ∀ m ∈ s.reqs, m.accID = a → seq < m.seq
    | none => True
  | act => keeps a s act ∨ s.idle a

instance (s : State) : (act : Act) → Decidable (visible s act)
  | .finalize _ d _ _ => inferInstanceAs (Decidable (d.lastExists = true))
  | .evictHash _ | .evictBind _ | .evictIDs => isFalse id
  | .login _ | .getBind .. | .getHash .. | .find .. | .enrich .. | .exec .. | .generate .. |
    .insert .. | .bindNewSDK .. | .write .. | .receive .. | .cleanup .. | .roleClear .. |
    .tick _ => isTrue trivial

instance (s : State) (a : UInt64) : Decidable (s.idle a) := by
  unfold State.idle
  infer_instance

instance (a : UInt64) (s : State) (act : Act) : Decidable (steady a s act) := by
  unfold steady
  split
  · infer_instance
  · split <;> infer_instance
  · infer_instance

/-- The hash holds game server `g` and sequence number `n`, and every claim,
message and login is in line with it. -/
structure Hosting (a : UInt64) (s : State) (g : UInt8) (n : UInt32) (p : UInt64) : Prop where
  stored : (s.hash a).Holds g n p
  claims : ∀ g', s.Claims a g' → g' = g ∧ g ≠ 0 ∧ n ≠ 0
  reqs : ∀ m ∈ s.reqs, m.accID = a → m.seq ≤ n
  holds : ∀ g' seq, s.holds g' a = some seq → seq ≤ n
  clears : ∀ m ∈ s.clears, m.accID = a → m.seq ≤ n ∧ (m.seq = n → ∀ g', ¬s.Claims a g')
  logins : ∀ l ∈ s.logins, ∀ acc, l.phase.account = some acc → acc.accID = a →
    acc.seq ≤ n ∧ (acc.seq = n → ∀ g', s.Claims a g' → acc.gameID = g')

variable {a p : UInt64} {s s' : State} {g : UInt8} {n : UInt32}

/-- A login that takes over an account knows the stored state or an older one. -/
theorem Hosting.snapshot (h : Hosting a s g n p) {acc : Data} (hsnap : Snapshot a s acc)
    (ha : acc.accID = a) :
    acc.seq ≤ n ∧ (acc.seq = n → ∀ g', s.Claims a g' → acc.gameID = g') := by
  cases hsnap with
  | kept hl hp => exact h.logins _ hl acc hp ha
  | fresh hseq =>
    rw [hseq]
    refine ⟨UInt32.le_iff_toNat_le.mpr (Nat.zero_le _), ?_⟩
    intro hn g' hclaim
    exact absurd hn.symm (h.claims g' hclaim).2.2
  | read hread =>
    obtain ⟨hgame, hseq⟩ := hread g n p h.stored
    refine ⟨hseq ▸ UInt32.le_refl _, ?_⟩
    intro _ g' hclaim
    rw [hgame, (h.claims g' hclaim).1]

/-- A step that stores nothing and makes no new claim. -/
theorem Hosting.of (h : Hosting a s g n p) (hhash : SameState a s s')
    (hreqs : ∀ m ∈ s'.reqs, m.accID = a → m ∈ s.reqs)
    (hholds : ∀ g' seq, s'.holds g' a = some seq → s.Claims a g' ∧ seq ≤ n)
    (hclears : ∀ m ∈ s'.clears, m.accID = a → m ∈ s.clears ∨ m.seq ≤ n ∧
      (m.seq = n → ∀ g', ¬s'.Claims a g'))
    (hlogins : ∀ l ∈ s'.logins, ∀ acc, l.phase.account = some acc → acc.accID = a →
      Snapshot a s acc) :
    Hosting a s' g n p := by
  have hclaims : ∀ g', s'.Claims a g' → s.Claims a g' := by
    rintro g' (hheld | ⟨m, hm, hma, hg⟩)
    · obtain ⟨seq, hseq⟩ := Option.isSome_iff_exists.mp hheld
      exact (hholds g' seq hseq).1
    · exact Or.inr ⟨m, hreqs m hm hma, hma, hg⟩
  constructor
  case stored => exact hhash.holds h.stored
  case claims => exact fun g' hclaim => h.claims g' (hclaims g' hclaim)
  case reqs => exact fun m hm hma => h.reqs m (hreqs m hm hma) hma
  case holds => exact fun g' seq hseq => (hholds g' seq hseq).2
  case clears =>
    intro m hm hma
    obtain hm | hnew := hclears m hm hma
    · obtain ⟨hle, hnone⟩ := h.clears m hm hma
      exact ⟨hle, fun heq g' hclaim => hnone heq g' (hclaims g' hclaim)⟩
    · exact hnew
  case logins =>
    intro l hl acc hp ha
    obtain ⟨hle, hgame⟩ := h.snapshot (hlogins l hl acc hp ha) ha
    exact ⟨hle, fun heq g' hclaim => hgame heq g' (hclaims g' hclaim)⟩

theorem Hosting.quiet (h : Hosting a s g n p) (hhash : SameState a s s') (hframe : Frame a s s') :
    Hosting a s' g n p := by
  refine h.of hhash hframe.reqs ?_ (fun m hm hma => Or.inl (hframe.clears m hm hma)) hframe.logins
  intro g' seq hseq
  rw [hframe.holds] at hseq
  exact ⟨Or.inl (by rw [hseq]; rfl), h.holds g' seq hseq⟩

/-- With the hash of an idle role everything about it is forgotten. -/
theorem Hosting.expired (hidle : s.idle a) (hhash : s'.hash a = ∅)
    (hlogins : s'.logins = s.logins) (hframe : Frame a s s') : Hosting a s' 0 0 0 := by
  obtain ⟨hholds, hreqs, hclears, hnone⟩ := hidle
  have hclaims : ∀ g', ¬s'.Claims a g' := by
    rintro g' (hheld | ⟨m, hm, hma, -⟩)
    · simp [hframe.holds, hholds] at hheld
    · exact hreqs m (hframe.reqs m hm hma) hma
  constructor
  case stored =>
    rw [hhash]
    exact Hash.Holds.empty
  case claims => exact fun g' hclaim => absurd hclaim (hclaims g')
  case reqs => exact fun m hm hma => absurd hma (hreqs m (hframe.reqs m hm hma))
  case holds =>
    intro g' seq hseq
    rw [hframe.holds, hholds] at hseq
    cases hseq
  case clears => exact fun m hm hma => absurd hma (hclears m (hframe.clears m hm hma))
  case logins => exact fun l hl acc hp ha => absurd ha (hnone l (hlogins ▸ hl) acc hp)

section Finalize

variable {d : Discovery} {acc : Data} {a p : UInt64} {s s' : State} {g : UInt8} {n : UInt32}

theorem allocateGameServer_ok {lastGameID gameID : UInt8}
    (h : allocateGameServer lastGameID d = .ok gameID) (hlast : d.lastExists = true)
    (hselect : d.select ≠ some 0) : gameID ≠ 0 ∧ (lastGameID ≠ 0 → gameID = lastGameID) := by
  unfold allocateGameServer at h
  split at h
  · rename_i hne
    cases h
    exact ⟨hne.1, fun _ => rfl⟩
  · rename_i hzero
    have hlast0 : lastGameID = 0 := by
      by_contra hne
      exact hzero ⟨hne, hlast⟩
    split at h
    · rename_i id hid
      cases h
      exact ⟨fun heq => hselect (heq ▸ hid), fun hne => absurd hlast0 hne⟩
    · cases h

theorem finalizeLoginSession_next {acc acc' : Data} {req : Request} {passwd : UInt64}
    (h : finalizeLoginSession acc req d passwd = .ok acc') (hlast : d.lastExists = true)
    (hselect : d.select ≠ some 0) :
    acc'.seq = acc.seq + 1 ∧ acc'.gameID ≠ 0 ∧
      (acc.gameID ≠ 0 → acc'.gameID = acc.gameID) := by
  obtain ⟨gameID, hgame, rfl⟩ := finalizeLoginSession_eq h
  exact ⟨rfl, allocateGameServer_ok hgame hlast hselect⟩

/-- A successful script: the login has read the stored state, so it has chosen the
game server that has a claim, if one has. -/
theorem Hosting.saved (h : Hosting a s g n p) {acc acc' : Data}
    (hfresh : acc.seq = n → ∀ g', s.Claims a g' → acc.gameID = g')
    (hseq : (s.hash a).currentSeq = acc.seq.toNat.repr) (hnext : acc'.seq = acc.seq + 1)
    (hwrap : acc.seq.toNat + 1 < 2 ^ 32)
    (hgame : acc'.gameID ≠ 0 ∧ (acc.gameID ≠ 0 → acc'.gameID = acc.gameID))
    (hhash : s'.hash a = (s.hash a).login acc')
    (hreqs : ∀ m ∈ s'.reqs, m.accID = a → m ∈ s.reqs ∨ m.gameID = acc'.gameID ∧ m.seq = acc'.seq)
    (hholds : s'.holds = s.holds) (hclears : s'.clears = s.clears)
    (hlogins : s'.logins = s.logins) : Hosting a s' acc'.gameID acc'.seq acc'.passwd := by
  have hn : acc.seq = n := UInt32.toNat_inj.mp ((h.stored.seq.currentSeq_eq_iff _).mp hseq).symm
  subst hn
  have hlt : acc.seq < acc'.seq := by
    rw [UInt32.lt_iff_toNat_lt, hnext, UInt32.toNat_add, UInt32.toNat_one, Nat.mod_eq_of_lt hwrap]
    exact Nat.lt_succ_self _
  have hnew : ∀ {q : UInt32}, q ≤ acc.seq → q ≤ acc'.seq ∧ q ≠ acc'.seq := by
    intro q hq
    have hqlt := UInt32.lt_of_le_of_lt hq hlt
    exact ⟨UInt32.le_of_lt hqlt, UInt32.ne_of_lt hqlt⟩
  have hkept : ∀ g', s.Claims a g' → g' = acc'.gameID := by
    intro g' hclaim
    have hg := hfresh rfl g' hclaim
    obtain ⟨heq, hne, -⟩ := h.claims g' hclaim
    rw [hgame.2 (by rw [hg, heq]; exact hne), hg]
  have hpos : acc'.seq ≠ 0 := by
    intro hzero
    rw [hzero, UInt32.lt_iff_toNat_lt] at hlt
    exact absurd hlt (Nat.not_lt_zero _)
  constructor
  case stored =>
    rw [hhash]
    exact Hash.login_holds _ _
  case claims =>
    rintro g' (hheld | ⟨m, hm, hma, rfl⟩)
    · rw [hholds] at hheld
      exact ⟨hkept g' (Or.inl hheld), hgame.1, hpos⟩
    · obtain hm | ⟨hmg, -⟩ := hreqs m hm hma
      · exact ⟨hkept _ (Or.inr ⟨m, hm, hma, rfl⟩), hgame.1, hpos⟩
      · exact ⟨hmg, hgame.1, hpos⟩
  case reqs =>
    intro m hm hma
    obtain hm | ⟨-, hmseq⟩ := hreqs m hm hma
    · exact (hnew (h.reqs m hm hma)).1
    · exact hmseq ▸ UInt32.le_refl _
  case holds =>
    intro g' seq hheld
    rw [hholds] at hheld
    exact (hnew (h.holds g' seq hheld)).1
  case clears =>
    intro m hm hma
    obtain ⟨hle, hne⟩ := hnew (h.clears m (hclears ▸ hm) hma).1
    exact ⟨hle, fun heq => absurd heq hne⟩
  case logins =>
    intro l hl acc₁ hp ha
    obtain ⟨hle, hne⟩ := hnew (h.logins l (hlogins ▸ hl) acc₁ hp ha).1
    exact ⟨hle, fun heq => absurd heq hne⟩

theorem Hosting.record (h : Hosting a s' g n p) (accID : UInt64) (bind : String)
    (outcome : Outcome) :
    Hosting a (s.record s' accID bind outcome) g n p :=
  ⟨h.stored, h.claims, h.reqs, h.holds, h.clears, h.logins⟩

theorem Hosting.finalize (h : Hosting a s g n p) {l : Login} {passwd : UInt64} {outcome : Outcome}
    (ha : acc.accID = a) (hfresh : acc.seq = n → ∀ g', s.Claims a g' → acc.gameID = g')
    (hlast : d.lastExists = true) (hselect : d.select ≠ some 0)
    (hwrap : acc.seq.toNat + 1 < 2 ^ 32) (hf : Finalize s l acc d passwd s' outcome) :
    ∃ g n p, Hosting a s' g n p := by
  subst ha
  cases hf with
  | rejected | failed => exact ⟨g, n, p, h⟩
  | @lost acc' hfin hseq =>
    obtain ⟨hnext, hgame⟩ := finalizeLoginSession_next hfin hlast hselect
    refine ⟨_, _, _, h.saved hfresh hseq hnext hwrap hgame ?_ (fun m hm _ => Or.inl hm) rfl rfl
      rfl⟩
    rw [setHash_hash, if_pos rfl]
  | @saved acc' hfin hseq =>
    obtain ⟨hnext, hgame⟩ := finalizeLoginSession_next hfin hlast hselect
    refine ⟨_, _, _, h.saved hfresh hseq hnext hwrap hgame ?_ ?_ rfl rfl rfl⟩
    · show (s.setHash acc.accID _).hash acc.accID = _
      rw [setHash_hash, if_pos rfl]
    · intro m hm _
      obtain hm | rfl : m ∈ s.reqs ∨ m = ⟨acc'.gameID, acc.accID, acc'.seq⟩ := by
        simpa using hm
      · exact Or.inl hm
      · exact Or.inr ⟨rfl, rfl⟩

end Finalize

/-- A clear that is carried out: no game server has a claim any more. -/
theorem Hosting.clear (h : Hosting a s g n p) {m : RoleClear} {ok : Bool} (ha : m.accID = a)
    (hnone : m.seq = n → ∀ g', ¬s.Claims a g') (hc : Clear s m s' ok) :
    ∃ g n p, Hosting a s' g n p := by
  subst ha
  cases hc with
  | ignored => exact ⟨g, n, p, h⟩
  | cleared hseq =>
    have hn : m.seq = n := UInt32.toNat_inj.mp ((h.stored.seq.currentSeq_eq_iff _).mp hseq).symm
    refine ⟨0, n, p, ?_, fun g' hclaim => absurd hclaim (hnone hn g'), h.reqs, h.holds, h.clears,
      h.logins⟩
    rw [setHash_hash, if_pos rfl]
    exact h.stored.clear

/-- A game server takes the role on: it had a claim already. -/
theorem Hosting.receive (h : Hosting a s g n p) {k : Nat} {m : GameLogin}
    (hm : s.reqs[k]? = some m) (ha : m.accID = a) (accepted : Bool) :
    Hosting a (s.receive k m accepted) g n p := by
  subst ha
  have hmem := List.mem_of_getElem? hm
  refine h.of (.of_hash rfl) (fun _ hm' _ => List.mem_of_mem_eraseIdx hm') ?_
    (fun _ hm' _ => Or.inl hm') (fun _ hl _ hp _ => .kept hl hp)
  intro g' seq hseq
  by_cases hg : g' = m.gameID
  · subst hg
    refine ⟨Or.inr ⟨m, hmem, rfl, rfl⟩, ?_⟩
    simp only [State.receive, Function.update_self, Option.some.injEq] at hseq
    subst hseq
    cases accepted with
    | true => exact h.reqs m hmem rfl
    | false =>
      cases hold : s.holds m.gameID m.accID with
      | none => exact UInt32.le_iff_toNat_le.mpr (Nat.zero_le _)
      | some seq => exact h.holds _ _ hold
  · simp only [State.receive, Function.update_of_ne hg] at hseq
    exact ⟨Or.inl (by rw [hseq]; rfl), h.holds g' seq hseq⟩

/-- A game server gives the role back. If its login was the last one, no other
claim is left. -/
theorem Hosting.cleanup {g g₀ : UInt8} {n seq : UInt32} (h : Hosting a s g n p)
    (hseq : s.holds g₀ a = some seq) (hlater : ∀ m ∈ s.reqs, m.accID = a → seq < m.seq) :
    Hosting a (s.cleanup g₀ a seq) g n p := by
  have hheld : ∀ g' q, (s.cleanup g₀ a seq).holds g' a = some q →
      g' ≠ g₀ ∧ s.holds g' a = some q := by
    intro g' q hq
    by_cases hg : g' = g₀
    · simp [State.cleanup, hg] at hq
    · simp only [State.cleanup, Function.update_of_ne hg] at hq
      exact ⟨hg, hq⟩
  refine h.of (.of_hash rfl) (fun _ hm' _ => hm') ?_ ?_ (fun _ hl _ hp _ => .kept hl hp)
  · intro g' q hq
    have hold := (hheld g' q hq).2
    exact ⟨Or.inl (by rw [hold]; rfl), h.holds g' q hold⟩
  · intro m hm hma
    obtain hm | rfl : m ∈ s.clears ∨ m = ⟨a, seq⟩ := by
      simpa [State.cleanup] using hm
    · exact Or.inl hm
    · refine Or.inr ⟨h.holds g₀ seq hseq, ?_⟩
      rintro rfl g' (hclaim | ⟨m, hm, hma, -⟩)
      · obtain ⟨q, hq⟩ := Option.isSome_iff_exists.mp hclaim
        obtain ⟨hne, hold⟩ := hheld g' q hq
        have hg' := (h.claims g' (Or.inl (by rw [hold]; rfl))).1
        have hg₀ := (h.claims g₀ (Or.inl (by rw [hseq]; rfl))).1
        exact hne (hg'.trans hg₀.symm)
      · exact absurd (hlater m hm hma) (UInt32.not_lt.mpr (h.reqs m hm hma))

theorem Hosting.move {act : Act} (h : Hosting a s g n p) (hok : steady a s act)
    (hm : AccountMove a s act s') :
    ∃ g n p, Hosting a s' g n p := by
  cases hm with
  | quiet hhash hframe => exact ⟨g, n, p, h.quiet hhash hframe⟩
  | expired hact hhash hlogins hframe =>
    have hidle : s.idle a := by
      cases act with
      | tick seconds | evictHash b => exact Or.resolve_left hok hact
      | _ => exact absurd trivial hact
    exact ⟨0, 0, 0, .expired hidle hhash hlogins hframe⟩
  | @finalize i l acc _ _ _ _ _ hl hp ha hf =>
    obtain ⟨hlast, hselect, hwrap⟩ := hok
    have hacc : l.phase.account = some acc := by
      rw [hp]
      rfl
    have hdone : Hosting a (s.setPhase i l .done) g n p :=
      h.quiet (.of_hash rfl) (Frame.rfl.setPhase rfl (by simp [Phase.account]))
    have hfresh := (h.logins l (List.mem_of_getElem? hl) acc hacc ha).2
    obtain ⟨g', n', p', h'⟩ :=
      hdone.finalize ha hfresh hlast hselect (hwrap l hl acc hacc ha) hf
    exact ⟨g', n', p', h'.record _ _ _⟩
  | receive hm ha accepted => exact ⟨g, n, p, h.receive hm ha accepted⟩
  | cleanup hseq =>
    simp only [steady, hseq, true_imp_iff] at hok
    exact ⟨g, n, p, h.cleanup hseq hok⟩
  | @roleClear k m _ _ _ hm ha hc =>
    have hsame : Hosting a { s with clears := s.clears.eraseIdx k } g n p :=
      ⟨h.stored, h.claims, h.reqs, h.holds,
        fun m' hm' => h.clears m' (List.mem_of_mem_eraseIdx hm'), h.logins⟩
    obtain ⟨g', n', p', h'⟩ :=
      hsame.clear ha (h.clears m (List.mem_of_getElem? hm) ha).2 hc
    exact ⟨g', n', p', h'.record _ _ _⟩

theorem Hosting.initial (h : accounts.init s) (a : UInt64) : Hosting a s 0 0 0 := by
  obtain ⟨hhashes, -, -, hlogins, -, hreqs, hclears, hholds, -⟩ := h
  constructor
  case stored =>
    have hempty : s.hash a = ∅ := by simp [State.hash, hhashes]
    rw [hempty]
    exact Hash.Holds.empty
  case claims => simp [State.Claims, hholds, hreqs]
  case reqs => simp [hreqs]
  case holds => simp [hholds]
  case clears => simp [hclears]
  case logins => simp [hlogins]

/-- A player is logged in for seven days after the account was registered. The hash
is gone, and the next login picks another game server. -/
theorem sevenDays_two_hosts : ∃ s, accounts.Reachable visible s ∧
    (s.holds 3 1).isSome ∧ (s.holds 4 1).isSome := by
  obtain ⟨s, hr, hs⟩ := Machine.exec_reaches (m := accounts) visible
    (fun s => (s.holds 3 1).isSome ∧ (s.holds 4 1).isSome)
    (register 0 "1@a" 3 ++ [Act.receive 0 true, .tick expiration] ++
      [Act.login ⟨"1@a", false, 0⟩, .getBind 1 false, .find 1 false, .enrich 1 false, .exec 1 true,
        .exec 1 true, .exec 1 true, .exec 1 true, .finalize 1 ⟨true, some 4⟩ 43 none,
        .receive 0 true])
    accounts_empty (by decide +kernel)
  exact ⟨s, hr, hs⟩

/-- In every state of a run that keeps to the condition, at most one game server holds
the role of the account. -/
theorem one_game_server_hosts {a : UInt64} {s : State} (h : accounts.Reachable (steady a) s)
    (g g' : UInt8) (hg : (s.holds g a).isSome) (hg' : (s.holds g' a).isSome) : g = g' := by
  obtain ⟨g₀, n, p, hinv⟩ : ∃ g n p, Hosting a s g n p := by
    refine accounts_invariant (P := fun s => ∃ g n p, Hosting a s g n p) a
      (fun _ hs => ⟨0, 0, 0, Hosting.initial hs a⟩) ?_ h
    rintro s act s' ⟨g, n, p, hinv⟩ hok hm
    exact hinv.move hok hm
  rw [(hinv.claims g (Or.inl hg)).1, (hinv.claims g' (Or.inl hg')).1]

/-- The player logs out before the seven days are over, and then the role may move. -/
theorem loggedOut_one_host : ∃ s, accounts.Reachable (steady 1) s ∧ (s.holds 4 1).isSome ∧
    ∀ g, (s.holds g 1).isSome → g = 4 := by
  obtain ⟨s, hr, hs⟩ := Machine.exec_reaches (m := accounts) (steady 1)
    (fun s => (s.holds 4 1).isSome)
    (register 0 "1@a" 3 ++
      [Act.receive 0 true, .cleanup 3 1, .roleClear 0 none, .tick expiration] ++
      [Act.login ⟨"1@a", false, 0⟩, .getBind 1 false, .find 1 false, .enrich 1 false, .exec 1 true,
        .exec 1 true, .exec 1 true, .exec 1 true, .finalize 1 ⟨true, some 4⟩ 43 none,
        .receive 0 true])
    accounts_empty (by decide +kernel)
  exact ⟨s, hr, hs, fun g hg => one_game_server_hosts hr g 4 hg hs⟩

end GameCluster.Account
