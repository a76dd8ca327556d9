import VBitcoin.ExceptRules

/-!
**Readers and what they read back** — `Reads r written a` says that `r` reads `a` off every
input that starts with `written`, whatever follows: the form of a round trip that composes
(`reads_bind`, `reads_list`).  `Yields r P` is the converse: of whatever `r` accepts, the value
and what was used up are related by `P`.
-/

namespace VBitcoin.Codec

open List

variable {β ε α γ : Type}

abbrev Reader (β ε α : Type) := StateT (List β) (Except ε) α

def Reads (r : Reader β ε α) (written : List β) (a : α) : Prop :=
  ∀ rest, r.run (written ++ rest) = .ok (a, rest)

theorem reads_pure (a : α) : Reads (pure a : Reader β ε α) [] a := fun _ => rfl

variable {a : α} {r : Reader β ε α} {f : α → Reader β ε γ} {written : List β}
  {P : α → List β → Prop} {e : ε}

theorem reads_lift {x : Except ε α} (h : x = .ok a) :
    Reads (StateT.lift x : Reader β ε α) [] a := by
  subst h
  exact fun _ => rfl

theorem reads_bind {written' : List β}
    {b : γ} (hr : Reads r written a) (hf : Reads (f a) written' b) :
    Reads (r >>= f) (written ++ written') b := by
  intro rest
  rw [StateT.run_bind, append_assoc, hr (written' ++ rest)]
  exact hf rest

theorem reads_bind_pure
    {b : γ} (hr : Reads r written a) (hf : Reads (f a) [] b) : Reads (r >>= f) written b := by
  have h := reads_bind hr hf
  rwa [append_nil] at h

/-! ### Elements -/

variable (eof : ε)

def readOne : Reader β ε β
  | [] => .error eof
  | b :: rest => .ok (b, rest)

theorem reads_one (b : β) : Reads (readOne eof) [b] b := fun _ => rfl

def readBlock (n : Nat) : Reader β ε (List β) := fun input =>
  if input.length < n then .error eof else .ok (input.take n, input.drop n)

theorem reads_block (written : List β) : Reads (readBlock eof written.length) written written := by
  intro rest
  have hlong : ¬ (written ++ rest).length < written.length := by
    rw [length_append]
    omega
  change (if (written ++ rest).length < written.length then _ else _) = _
  rw [if_neg hlong, take_left, drop_left]

def readList (r : Reader β ε α) : Nat → Reader β ε (List α)
  | 0 => pure []
  | n + 1 => do
    let a ← r
    let as ← readList r n
    pure (a :: as)

theorem reads_list {r : Reader β ε α} {write : α → List β} :
    ∀ {as : List α}, (∀ a ∈ as, Reads r (write a) a) →
      Reads (readList r as.length) (as.map write).flatten as
  | [], _ => reads_pure []
  | a :: as, h => by
      refine reads_bind (h a mem_cons_self) (reads_bind_pure (reads_list fun b hb => ?_)
        (reads_pure (a :: as)))
      exact h b (mem_cons_of_mem a hb)

/-! ### What a reader accepts -/

def Yields (r : Reader β ε α) (P : α → List β → Prop) : Prop :=
  ∀ input a rest, r.run input = .ok (a, rest) → ∃ used, input = used ++ rest ∧ P a used

theorem yields_pure (h : P a []) : Yields (pure a : Reader β ε α) P := by
  intro input b rest hrun
  cases hrun
  exact ⟨[], rfl, h⟩

theorem yields_throw (e : ε) (P : α → List β → Prop) : Yields (throw e : Reader β ε α) P := by
  intro input b rest hrun
  cases hrun

theorem yields_lift (x : Except ε α) :
    Yields (StateT.lift x : Reader β ε α) fun a used => used = [] ∧ x = .ok a := by
  intro input a rest hrun
  cases x with
  | error e => cases hrun
  | ok b =>
    cases hrun
    exact ⟨[], rfl, rfl, rfl⟩

theorem yields_bind {Q : γ → List β → Prop} (hr : Yields r P)
    (hf : ∀ a used, P a used → Yields (f a) fun b used' => Q b (used ++ used')) :
    Yields (r >>= f) Q := by
  intro input b rest hrun
  rw [StateT.run_bind, bind_eq_ok] at hrun
  obtain ⟨⟨a, mid⟩, hfirst, hsecond⟩ := hrun
  obtain ⟨used, rfl, hP⟩ := hr input a mid hfirst
  obtain ⟨used', rfl, hQ⟩ := hf a used hP mid b rest hsecond
  exact ⟨used ++ used', (append_assoc used used' rest).symm, hQ⟩

theorem Yields.mono {Q : α → List β → Prop} (h : Yields r P)
    (hPQ : ∀ a used, P a used → Q a used) : Yields r Q := by
  intro input a rest hrun
  obtain ⟨used, hinput, hP⟩ := h input a rest hrun
  exact ⟨used, hinput, hPQ a used hP⟩

theorem yields_one : Yields (readOne eof) fun (b : β) used => used = [b] := by
  intro input b rest hrun
  cases input with
  | nil => cases hrun
  | cons head tail =>
    cases hrun
    exact ⟨[b], rfl, rfl⟩

theorem yields_block (n : Nat) :
    Yields (readBlock eof n) fun (l : List β) used => used = l ∧ l.length = n := by
  intro input l rest hrun
  change (if input.length < n then _ else _) = _ at hrun
  split at hrun
  · cases hrun
  · cases hrun
    refine ⟨input.take n, (take_append_drop n input).symm, rfl, ?_⟩
    rw [length_take]
    omega

theorem yields_list {r : Reader β ε α} {write : α → List β} {Good : α → Prop}
    (hr : Yields r fun a used => used = write a ∧ Good a) : ∀ n : Nat,
      Yields (readList r n) fun as used => used = (as.map write).flatten ∧ as.length = n ∧
        ∀ a ∈ as, Good a
  | 0 => yields_pure ⟨rfl, rfl, by simp⟩
  | n + 1 => by
    refine yields_bind hr fun a used ha => ?_
    refine yields_bind (yields_list hr n) fun as used' has => yields_pure ?_
    obtain ⟨rfl, hgood⟩ := ha
    obtain ⟨rfl, rfl, hall⟩ := has
    refine ⟨by simp, rfl, ?_⟩
    intro b hb
    rcases mem_cons.mp hb with rfl | hmem
    · exact hgood
    · exact hall b hmem

/-! ### What a reader refuses -/

/-- The reader stops on every input that starts like this. -/
def Refuses (r : Reader β ε α) (written : List β) (e : ε) : Prop :=
  ∀ rest, r.run (written ++ rest) = .error e

theorem refuses_throw (e : ε) : Refuses (throw e : Reader β ε α) [] e := fun _ => rfl

theorem Refuses.append (h : Refuses r written e)
    (more : List β) : Refuses r (written ++ more) e := by
  intro rest
  rw [append_assoc]
  exact h (more ++ rest)

theorem Refuses.bind (h : Refuses r written e)
    (f : α → Reader β ε γ) : Refuses (r >>= f) written e := by
  intro rest
  rw [StateT.run_bind, h rest]
  rfl

theorem refuses_bind {written' : List β} (hr : Reads r written a) (hf : Refuses (f a) written' e) :
    Refuses (r >>= f) (written ++ written') e := by
  intro rest
  rw [StateT.run_bind, append_assoc, hr (written' ++ rest)]
  exact hf rest

/-! ### Values only -/

/-- `r` uses up a part of the input, and its value satisfies `P`. -/
def Gives (r : Reader β ε α) (P : α → Prop) : Prop := Yields r fun a _ => P a

theorem gives_pure {P : α → Prop} (h : P a) : Gives (pure a : Reader β ε α) P :=
  yields_pure h

theorem gives_throw (e : ε) (P : α → Prop) : Gives (throw e : Reader β ε α) P :=
  yields_throw e _

theorem gives_get : Gives (get : Reader β ε (List β)) fun _ => True := by
  intro input a rest hrun
  cases hrun
  exact ⟨[], rfl, trivial⟩

theorem gives_bind {Q : α → Prop} {P : γ → Prop}
    (hr : Gives r Q) (hf : ∀ a, Q a → Gives (f a) P) : Gives (r >>= f) P :=
  yields_bind hr fun a _ ha => hf a ha

theorem gives_ite {c : Prop} [Decidable c] {s : Reader β ε α} {P : α → Prop}
    (hr : c → Gives r P) (hs : ¬ c → Gives s P) : Gives (if c then r else s) P := by
  split
  · exact hr ‹_›
  · exact hs ‹_›

theorem Yields.gives (h : Yields r P) :
    Gives r fun _ => True := h.mono fun _ _ _ => trivial

theorem gives_list {r : Reader β ε α} {P : α → Prop} (hr : Gives r P) : ∀ n : Nat,
    Gives (readList r n) fun as => as.length = n ∧ ∀ a ∈ as, P a
  | 0 => gives_pure ⟨rfl, by simp⟩
  | n + 1 => by
    refine gives_bind hr fun a ha => gives_bind (gives_list hr n) fun as has => gives_pure ?_
    refine ⟨by rw [length_cons, has.1], ?_⟩
    intro b hb
    rcases mem_cons.mp hb with rfl | hmem
    · exact ha
    · exact has.2 b hmem

end VBitcoin.Codec
