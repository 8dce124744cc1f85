import GameCluster.Lib.Decimal
import GameCluster.Lib.Machine
import GameCluster.Lib.Table

/-!
`SimpleLock` (`pkg/lock/simple.go`): `Lock` is a `SET NX` of the instance's own
value, `Unlock` a script that deletes the key if it still holds that value. Any
number of instances share one key, call both in any order and as often as they
like, and the key may expire at any time. A command may also fail to reach Redis
or lose its answer, in which case `Lock` returns an error and has not succeeded.

Every successful `Lock` is kept in a list, with how it ended. The key remembers
for the statements only which of them set it.
-/

namespace GameCluster.Lock.Simple

open Lib

variable {I : Type}

/-- How a successful `Lock` ended. -/
inductive End (I : Type) where
  | expired
  | unlocked (caller : I)
  deriving DecidableEq, Repr

/-- A `Lock` that returned true. -/
structure Grant (I : Type) where
  owner : I
  ended : Option (End I)
  deriving DecidableEq

/-- Neither expired nor unlocked by the instance that got it. -/
def Grant.Held (g : Grant I) : Prop :=
  g.ended ≠ some .expired ∧ g.ended ≠ some (.unlocked g.owner)

/-- The key in Redis; `grant` is the successful `Lock` that set it. -/
structure Key where
  text : String
  grant : Option ℕ

structure State (I : Type) where
  key : Option Key
  grants : List (Grant I)

/-- What becomes of a command. -/
inductive Reply where
  | answered
  /-- It is executed and the answer is lost. -/
  | lost
  | failed
  deriving DecidableEq, Repr

inductive Act (I : Type) where
  | lock (i : I) (reply : Reply)
  | unlock (i : I) (reply : Reply)
  | expire

/-- The text that `lockValue` is sent as. -/
def text (v : Int64) : String := v.toInt.repr

def endGrant (grants : List (Grant I)) (grant : Option ℕ) (e : End I) : List (Grant I) :=
  match grant with
  | none => grants
  | some n => grants.modify n fun g => { g with ended := some e }

/-- The key goes, and with it the lock that set it. -/
def State.delKey (s : State I) (k : Key) (e : End I) : State I :=
  ⟨none, endGrant s.grants k.grant e⟩

section Machine

variable (lockValue : I → Int64)

/-- `Lock`. -/
def State.lock (s : State I) (i : I) (reply : Reply) : State I :=
  match s.key, reply with
  | none, .answered =>
    ⟨some ⟨text (lockValue i), some s.grants.length⟩, s.grants ++ [⟨i, none⟩]⟩
  | none, .lost => { s with key := some ⟨text (lockValue i), none⟩ }
  | _, _ => s

/-- `Unlock`. -/
def State.unlock (s : State I) (i : I) (reply : Reply) : State I :=
  match s.key, reply with
  | none, _ => s
  | some _, .failed => s
  | some k, _ => if k.text = text (lockValue i) then s.delKey k (.unlocked i) else s

def State.step (s : State I) : Act I → Option (State I)
  | .lock i reply => some (s.lock lockValue i reply)
  | .unlock i reply => some (s.unlock lockValue i reply)
  | .expire => s.key.map fun k => s.delKey k .expired

/-- At the start no instance has the lock, though the key may be there. -/
def server : Machine (State I) (Act I) where
  init s := s.grants = [] ∧ ∀ k, s.key = some k → k.grant = none
  step := State.step lockValue

/-- Everything a step can do. -/
inductive Effect (s : State I) : Act I → State I → Prop
  | idle {a : Act I} : Effect s a s
  | granted {i : I} {reply : Reply} (hkey : s.key = none) :
      Effect s (.lock i reply)
        ⟨some ⟨text (lockValue i), some s.grants.length⟩, s.grants ++ [⟨i, none⟩]⟩
  | lost {i : I} {reply : Reply} (hkey : s.key = none) :
      Effect s (.lock i reply) { s with key := some ⟨text (lockValue i), none⟩ }
  | unlocked {i : I} {reply : Reply} {k : Key} (hkey : s.key = some k)
      (htext : k.text = text (lockValue i)) :
      Effect s (.unlock i reply) (s.delKey k (.unlocked i))
  | expired {k : Key} (hkey : s.key = some k) : Effect s .expire (s.delKey k .expired)

theorem step_effect {s t : State I} {a : Act I} (h : s.step lockValue a = some t) :
    Effect lockValue s a t := by
  cases a with
  | lock i reply =>
    cases h
    unfold State.lock
    split
    · rename_i hkey
      exact .granted hkey
    · rename_i hkey
      exact .lost hkey
    · exact .idle
  | unlock i reply =>
    cases h
    unfold State.unlock
    split
    · exact .idle
    · exact .idle
    · rename_i hkey _
      split
      · rename_i htext
        exact .unlocked hkey htext
      · exact .idle
  | expire =>
    obtain ⟨k, hkey, rfl⟩ := Option.map_eq_some_iff.mp h
    exact .expired hkey

structure Inv (s : State I) : Prop where
  /-- The key holds the value of the instance whose lock set it. -/
  keyed : ∀ (k : Key) (n : ℕ), s.key = some k → k.grant = some n →
    ∃ g : Grant I, s.grants[n]? = some g ∧ k.text = text (lockValue g.owner)
  /-- A lock that has not ended has the key. -/
  live : ∀ (n : ℕ) (g : Grant I), s.grants[n]? = some g → g.ended = none →
    ∃ k, s.key = some k ∧ k.grant = some n
  released : ∀ (n : ℕ) (g : Grant I) (i : I), s.grants[n]? = some g →
    g.ended = some (.unlocked i) → i = g.owner

end Machine

theorem text_injective {v v' : Int64} (h : text v = text v') : v = v' := by
  have hparse : ∀ u : Int64, parseInt 64 (text u) = some u.toInt := by
    intro u
    exact parseInt_repr u.le_toInt u.toInt_lt
  have heq := (hparse v).symm.trans ((congrArg (parseInt 64) h).trans (hparse v'))
  exact Int64.toInt_inj.mp (Option.some.inj heq)

theorem getElem?_endGrant {grants : List (Grant I)} {grant : Option ℕ} {e : End I} {n : ℕ}
    {g : Grant I} (h : (endGrant grants grant e)[n]? = some g) :
    grant ≠ some n ∧ grants[n]? = some g ∨
      grant = some n ∧ ∃ g', grants[n]? = some g' ∧ g = { g' with ended := some e } := by
  unfold endGrant at h
  cases grant with
  | none => exact Or.inl ⟨by simp, h⟩
  | some m =>
    simp only [List.getElem?_modify] at h
    by_cases hm : m = n
    · subst hm
      simp only [if_true] at h
      obtain ⟨g', hg', rfl⟩ := Option.map_eq_some_iff.mp h
      exact Or.inr ⟨rfl, g', hg', rfl⟩
    · simp only [hm, if_false] at h
      exact Or.inl ⟨by simpa using hm, by simpa using h⟩

/-- The end of the lock that set the key, whatever ended it, if an `Unlock` that did
so was its owner's. -/
theorem Inv.delKey {lockValue : I → Int64} {s : State I} {k : Key} {e : End I}
    (hinv : Inv lockValue s) (hkey : s.key = some k)
    (howner : ∀ (i : I) (n : ℕ) (g : Grant I), e = .unlocked i → k.grant = some n →
      s.grants[n]? = some g → i = g.owner) :
    Inv lockValue (s.delKey k e) where
  keyed := nofun
  live := by
    intro n g hg hend
    rcases getElem?_endGrant hg with ⟨hne, hold⟩ | ⟨-, g', -, rfl⟩
    · obtain ⟨k', hkey', hgrant⟩ := hinv.live n g hold hend
      obtain rfl : k = k' := Option.some.inj (hkey.symm.trans hkey')
      exact absurd hgrant hne
    · cases hend
  released := by
    intro n g i hg hend
    rcases getElem?_endGrant hg with ⟨-, hold⟩ | ⟨hgrant, g', hold, rfl⟩
    · exact hinv.released n g i hold hend
    · exact howner i n g' (Option.some.inj hend) hgrant hold

section Runs

variable {lockValue : I → Int64} {s t : State I} {a : Act I}

/-- With distinct values the script's comparison tells the instances apart. -/
theorem Inv.owner_of_text (hinj : Function.Injective lockValue) (hinv : Inv lockValue s)
    {k : Key} {n : ℕ} {g : Grant I} {i : I} (hkey : s.key = some k) (hgrant : k.grant = some n)
    (hg : s.grants[n]? = some g) (htext : k.text = text (lockValue i)) : i = g.owner := by
  obtain ⟨g', hg', htext'⟩ := hinv.keyed k n hkey hgrant
  obtain rfl : g = g' := Option.some.inj (hg.symm.trans hg')
  exact hinj (text_injective (htext.symm.trans htext'))

theorem Inv.step (hinj : Function.Injective lockValue) (hinv : Inv lockValue s)
    (h : Effect lockValue s a t) : Inv lockValue t := by
  cases h with
  | idle => exact hinv
  | @granted i reply hkey =>
    refine ⟨?_, ?_, ?_⟩
    · rintro k n ⟨rfl⟩ ⟨rfl⟩
      exact ⟨⟨i, none⟩, by simp, rfl⟩
    · intro n g hg hend
      rw [getElem?_concat] at hg
      split at hg
      · rename_i hn
        exact ⟨_, rfl, congrArg some hn.symm⟩
      · obtain ⟨k, hkey', -⟩ := hinv.live n g hg hend
        rw [hkey] at hkey'
        cases hkey'
    · intro n g j hg hend
      rw [getElem?_concat] at hg
      split at hg
      · cases hg
        cases hend
      · exact hinv.released n g j hg hend
  | lost hkey =>
    refine ⟨?_, ?_, hinv.released⟩
    · rintro k n ⟨rfl⟩ hgrant
      cases hgrant
    · intro n g hg hend
      obtain ⟨k, hkey', -⟩ := hinv.live n g hg hend
      rw [hkey] at hkey'
      cases hkey'
  | @unlocked i reply k hkey htext =>
    apply hinv.delKey hkey
    rintro j n g ⟨rfl⟩ hgrant hg
    exact hinv.owner_of_text hinj hkey hgrant hg htext
  | expired hkey =>
    apply hinv.delKey hkey
    rintro j n g hend
    cases hend

theorem inv_of_reachable (hinj : Function.Injective lockValue)
    (h : (server lockValue).Reachable Machine.anyStep s) : Inv lockValue s := by
  refine h.invariant (P := Inv lockValue) ?_ ?_
  · rintro s ⟨hgrants, hkey⟩
    have hnil : ∀ n : ℕ, s.grants[n]? = none := by
      intro n
      rw [hgrants]
      rfl
    refine ⟨?_, ?_, ?_⟩
    · intro k n hk hgrant
      rw [hkey k hk] at hgrant
      cases hgrant
    · intro n g hg
      rw [hnil] at hg
      cases hg
    · intro n g i hg
      rw [hnil] at hg
      cases hg
  · intro s a t _ hinv _ hs
    exact hinv.step hinj (step_effect lockValue hs)

/-- Nothing but its expiry or its owner ends a lock. -/
theorem Inv.held (hinv : Inv lockValue s) {n : ℕ} {g : Grant I} (hg : s.grants[n]? = some g)
    (hheld : g.Held) : ∃ k, s.key = some k ∧ k.grant = some n := by
  apply hinv.live n g hg
  cases hend : g.ended with
  | none => rfl
  | some e =>
    cases e with
    | expired => exact absurd hend hheld.1
    | unlocked i =>
      rw [hinv.released n g i hg hend] at hend
      exact absurd hend hheld.2

theorem unlock_of_text_ne {k : Key} {i : I} (hkey : s.key = some k)
    (hne : k.text ≠ text (lockValue i)) (reply : Reply) : s.unlock lockValue i reply = s := by
  unfold State.unlock
  rw [hkey]
  cases reply with
  | failed => rfl
  | answered | lost => exact if_neg hne

/-- In every state of every run at most one `Lock` that returned true is held, and an
`Unlock` by an instance that holds none leaves the held one alone and its value in the
key. -/
theorem held_unique_and_kept (hinj : Function.Injective lockValue)
    (h : (server lockValue).Reachable Machine.anyStep s) :
    (∀ (n n' : ℕ) (g g' : Grant I), s.grants[n]? = some g → s.grants[n']? = some g' →
      g.Held → g'.Held → n = n') ∧
    ∀ (i : I) (reply : Reply),
      (∀ (n : ℕ) (g : Grant I), s.grants[n]? = some g → g.owner = i → ¬g.Held) →
      ∀ (n : ℕ) (g : Grant I), s.grants[n]? = some g → g.Held →
        s.unlock lockValue i reply = s ∧
          ∃ k, s.key = some k ∧ k.text = text (lockValue g.owner) := by
  have hinv := inv_of_reachable hinj h
  constructor
  · intro n n' g g' hg hg' hheld hheld'
    obtain ⟨k, hkey, hgrant⟩ := hinv.held hg hheld
    obtain ⟨k', hkey', hgrant'⟩ := hinv.held hg' hheld'
    obtain rfl : k = k' := Option.some.inj (hkey.symm.trans hkey')
    exact Option.some.inj (hgrant.symm.trans hgrant')
  · intro i reply hnone n g hg hheld
    obtain ⟨k, hkey, hgrant⟩ := hinv.held hg hheld
    obtain ⟨g', hg', htext⟩ := hinv.keyed k n hkey hgrant
    obtain rfl : g = g' := Option.some.inj (hg.symm.trans hg')
    refine ⟨unlock_of_text_ne hkey (fun heq => ?_) reply, k, hkey, htext⟩
    have howner := hinv.owner_of_text hinj hkey hgrant hg heq
    exact hnone n g hg howner.symm hheld

end Runs

/-- The values of two instances. -/
def twoValues (second : Bool) : Int64 := if second then 12 else 7

theorem twoValues_injective : Function.Injective twoValues := by
  intro a b
  revert a b
  decide

/-- The first lock expires, the second instance gets one, and the first unlocks late. -/
theorem lateUnlock_keeps : ∃ s, (server twoValues).Reachable Machine.anyStep s ∧
    s.grants = [⟨false, some .expired⟩, ⟨true, none⟩] ∧
    s.unlock twoValues false .answered = s := by
  obtain ⟨s, hr, hgrants⟩ := Machine.exec_reaches (m := server twoValues) Machine.anyStep
    (fun s => s.grants = [⟨false, some .expired⟩, ⟨true, none⟩])
    [Act.lock false .answered, .lock true .answered, .expire, .lock true .answered]
    (s := ⟨none, []⟩) ⟨rfl, nofun⟩ (by decide +kernel)
  refine ⟨s, hr, hgrants, ?_⟩
  have hkept := (held_unique_and_kept twoValues_injective hr).2 false .answered
  rw [hgrants] at hkept
  refine (hkept ?_ 1 ⟨true, none⟩ rfl ⟨by decide, by decide⟩).1
  rintro (_ | _ | n) g ⟨rfl⟩ howner hheld
  · exact hheld.1 rfl
  · cases howner

end GameCluster.Lock.Simple
