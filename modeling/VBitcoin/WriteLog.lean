import Mathlib

/-!
**Logs of writes to a store** — a log is a list of writes (a value, or `none` to remove the
key).  Replaying is blind, so a log that removes keys and creates new ones can be undone
(`replay_undo`), and a store half way between two others is repaired by going back to their
common ancestor and forward again (`replay_mixed`).
-/

namespace VBitcoin.WriteLog

open List

variable {K V : Type}

/-- A write: the key and what it holds from then on. -/
abbrev Log (K V : Type) := List (K × Option V)

def keys (log : Log K V) : List K := log.map Prod.fst

@[simp] theorem keys_nil : keys ([] : Log K V) = [] := rfl

@[simp] theorem keys_cons (w : K × Option V) (log : Log K V) :
    keys (w :: log) = w.1 :: keys log := rfl

@[simp] theorem keys_append (log log' : Log K V) : keys (log ++ log') = keys log ++ keys log' :=
  map_append

def removes (ks : List K) : Log K V := ks.map fun k => (k, none)

def puts (kvs : List (K × V)) : Log K V := kvs.map fun kv => (kv.1, some kv.2)

@[simp] theorem keys_removes (ks : List K) : keys (removes ks : Log K V) = ks := by
  simp [keys, removes, Function.comp_def]

@[simp] theorem keys_puts (kvs : List (K × V)) : keys (puts kvs) = kvs.map Prod.fst := by
  simp [keys, puts, Function.comp_def]

/-! ### Replaying -/

section Replay

variable [DecidableEq K]

def replay (s : K → Option V) (log : Log K V) : K → Option V :=
  log.foldl (fun s w => Function.update s w.1 w.2) s

@[simp] theorem replay_nil (s : K → Option V) : replay s [] = s := rfl

@[simp] theorem replay_cons (s : K → Option V) (w : K × Option V) (log : Log K V) :
    replay s (w :: log) = replay (Function.update s w.1 w.2) log := rfl

theorem replay_append (s : K → Option V) (log log' : Log K V) :
    replay s (log ++ log') = replay (replay s log) log' := by
  rw [replay, foldl_append]
  rfl

variable {log : Log K V} {k : K}

theorem replay_of_notMem (h : k ∉ keys log) (s : K → Option V) : replay s log k = s k := by
  induction log generalizing s with
  | nil => rfl
  | cons w log ih =>
    rw [keys_cons, mem_cons, not_or] at h
    rw [replay_cons, ih h.2, Function.update_of_ne h.1]

theorem replay_of_mem (h : k ∈ keys log) (s s' : K → Option V) :
    replay s log k = replay s' log k := by
  induction log generalizing s s' with
  | nil => cases h
  | cons w log ih =>
    rw [replay_cons, replay_cons]
    by_cases hlater : k ∈ keys log
    · exact ih hlater _ _
    · have hw : k = w.1 := (mem_cons.mp h).resolve_right hlater
      rw [replay_of_notMem hlater, replay_of_notMem hlater, hw, Function.update_self,
        Function.update_self]

theorem mem_or_of_replay {s : K → Option V} {v : V}
    (h : replay s log k = some v) : (k, some v) ∈ log ∨ (k ∉ keys log ∧ s k = some v) := by
  induction log generalizing s with
  | nil => exact Or.inr ⟨not_mem_nil, h⟩
  | cons w log ih =>
    rw [replay_cons] at h
    rcases ih h with hmem | ⟨hnot, hs⟩
    · exact Or.inl (mem_cons_of_mem w hmem)
    · by_cases hw : k = w.1
      · subst hw
        rw [Function.update_self] at hs
        rw [← hs]
        exact Or.inl mem_cons_self
      · rw [Function.update_of_ne hw] at hs
        exact Or.inr ⟨fun hmem => (mem_cons.mp hmem).elim hw hnot, hs⟩

theorem replay_of_agrees {t : K → Option V} (h : ∀ w ∈ log, w.2 = t w.1)
    (hk : k ∈ keys log) (s : K → Option V) : replay s log k = t k := by
  rw [replay_of_mem hk s t]
  clear hk
  induction log with
  | nil => rfl
  | cons w log ih =>
    have hsame : Function.update t w.1 w.2 = t := by
      rw [h w mem_cons_self, Function.update_eq_self]
    rw [replay_cons, hsame]
    exact ih fun w' hw' => h w' (mem_cons_of_mem w hw')

theorem replay_removes_of_mem {ks : List K} (h : k ∈ ks) (s : K → Option V) :
    replay s (removes ks) k = none := by
  refine replay_of_agrees (t := fun _ => none) (fun w hw => ?_) (by rwa [keys_removes]) s
  obtain ⟨k, -, rfl⟩ := mem_map.mp hw
  rfl

theorem replay_removes_of_notMem {ks : List K} (h : k ∉ ks) (s : K → Option V) :
    replay s (removes ks) k = s k :=
  replay_of_notMem (by rwa [keys_removes]) s

theorem replay_puts_of_mem {kvs : List (K × V)} (hnodup : (kvs.map Prod.fst).Nodup) {kv : K × V}
    (hmem : kv ∈ kvs) (s : K → Option V) : replay s (puts kvs) kv.1 = some kv.2 := by
  induction kvs generalizing s with
  | nil => cases hmem
  | cons kv' kvs ih =>
    obtain ⟨hkv', hnodup⟩ := nodup_cons.mp hnodup
    rcases mem_cons.mp hmem with rfl | hmem
    · have hlater : kv.1 ∉ keys (puts kvs) := by rwa [keys_puts]
      rw [puts, map_cons, replay_cons]
      exact (replay_of_notMem hlater _).trans (Function.update_self _ _ _)
    · exact ih hnodup hmem _

end Replay

/-! ### Undoing -/

/-- The values that a list of keys has in a store. -/
def Holds (s : K → Option V) (ks : List K) (vs : List V) : Prop :=
  List.Forall₂ (fun k v => s k = some v) ks vs

variable {s : K → Option V} {ks : List K} {vs : List V}

theorem Holds.mem_zip (h : Holds s ks vs)
    {kv : K × V} (hmem : kv ∈ ks.zip vs) : s kv.1 = some kv.2 := by
  induction h with
  | nil => cases hmem
  | cons hk _ ih =>
    rcases mem_cons.mp hmem with rfl | hmem
    · exact hk
    · exact ih hmem

theorem Holds.exists_key (h : Holds s ks vs) {v : V} (hmem : v ∈ vs) : ∃ k ∈ ks, s k = some v := by
  induction h with
  | nil => cases hmem
  | @cons k v' ks vs hk _ ih =>
    rcases mem_cons.mp hmem with rfl | hmem
    · exact ⟨k, mem_cons_self, hk⟩
    · obtain ⟨k', hk', hs⟩ := ih hmem
      exact ⟨k', mem_cons_of_mem k hk', hs⟩

theorem Holds.map_fst_zip (h : Holds s ks vs) : (ks.zip vs).map Prod.fst = ks :=
  List.map_fst_zip (Nat.le_of_eq (List.Forall₂.length_eq h))

/-- Of the removal of `removed`, which held `vs`, and of `created`. -/
def undo (removed : List K) (vs : List V) (created : List K) : Log K V :=
  removes created ++ puts (removed.zip vs).reverse

variable [DecidableEq K]

/-- **Undoing a change.**  The created keys must have been free. -/
theorem replay_undo {removed : List K} {created : List (K × V)} (hheld : Holds s removed vs)
    (hfree : ∀ k ∈ created.map Prod.fst, replay s (removes removed) k = none) :
    replay (replay s (removes removed ++ puts created))
      (undo removed vs (created.map Prod.fst)) = s := by
  funext k
  have hback : ∀ w ∈ puts (removed.zip vs).reverse, w.2 = s w.1 := by
    intro w hw
    obtain ⟨kv, hkv, rfl⟩ := mem_map.mp hw
    exact (hheld.mem_zip (mem_reverse.mp hkv)).symm
  have hkeys : k ∈ keys (puts (removed.zip vs).reverse) ↔ k ∈ removed := by
    rw [keys_puts, map_reverse, hheld.map_fst_zip, mem_reverse]
  rw [undo, replay_append]
  by_cases hremoved : k ∈ removed
  · exact replay_of_agrees hback (hkeys.mpr hremoved) _
  · rw [replay_of_notMem (mt hkeys.mp hremoved)]
    by_cases hcreated : k ∈ created.map Prod.fst
    · -- it was free, and it is none of the removed ones
      rw [replay_removes_of_mem hcreated, ← hfree k hcreated, replay_removes_of_notMem hremoved]
    · rw [replay_removes_of_notMem hcreated, replay_append,
        replay_of_notMem (by rwa [keys_puts]), replay_removes_of_notMem hremoved]

/-! ### Recovery from a partial write -/

/-- A store whose keys hold, each on its own, what they hold in `a` or in `b`. -/
def Mixed (a b m : K → Option V) : Prop := ∀ k, m k = a k ∨ m k = b k

/-- **Recovery.** A log from `a` back to `f`, and the log from `f` to `b`, give `b`. -/
theorem replay_mixed {a b f m : K → Option V} {back forth : Log K V} (hmixed : Mixed a b m)
    (hback : ∀ k ∉ keys forth, replay a back k = f k) (hforth : replay f forth = b) :
    replay (replay m back) forth = b := by
  funext k
  by_cases hk : k ∈ keys forth
  · rw [← hforth]
    exact replay_of_mem hk _ _
  · have hb : b k = f k := by rw [← hforth, replay_of_notMem hk]
    rw [replay_of_notMem hk, hb]
    by_cases hk' : k ∈ keys back
    · rw [replay_of_mem hk' m a, hback k hk]
    · have ha : a k = f k := by rw [← hback k hk, replay_of_notMem hk']
      rw [replay_of_notMem hk']
      rcases hmixed k with hm | hm
      · rw [hm, ha]
      · rw [hm, hb]

end VBitcoin.WriteLog
