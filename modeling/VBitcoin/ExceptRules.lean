import Mathlib

/-!
**Rules for computations that may stop** — `Except ε` programs written with `do`, read
backwards from a run that returned: `bind_eq_ok` peels off one statement, `require_eq_ok`
reads a guard, `foldlM_induction` is the invariant rule for a `for` loop, and `Reached` is for
programs that run one after the other.
-/

namespace VBitcoin

open List

universe u v w

variable {ε : Type u} {α β : Type v}

variable {x : Except ε α} {e : ε} {P : ε → Prop}

theorem bind_eq_ok {f : α → Except ε β} {b : β} :
    (x >>= f) = .ok b ↔ ∃ a, x = .ok a ∧ f a = .ok b := by
  cases x with
  | error e => simp [bind, Except.bind]
  | ok a => simp [bind, Except.bind]

@[simp] theorem ok_bind (a : α) (f : α → Except ε β) : ((.ok a : Except ε α) >>= f) = f a := rfl

@[simp] theorem error_bind (e : ε) (f : α → Except ε β) :
    ((.error e : Except ε α) >>= f) = .error e := rfl

@[simp] theorem pure_eq_ok_iff {a b : α} : (pure a : Except ε α) = .ok b ↔ a = b := by
  simp [pure, Except.pure]

def require (condition : Bool) (e : ε) : Except ε PUnit :=
  if condition then .ok ⟨⟩ else .error e

@[simp] theorem require_eq_ok {condition : Bool} {u : PUnit} :
    require condition e = .ok u ↔ condition = true := by
  cases condition <;> simp [require]

@[simp] theorem require_true (e : ε) : require true e = .ok ⟨⟩ := rfl

@[simp] theorem require_false (e : ε) : require false e = .error e := rfl

def onlyIf (condition : Bool) (x : Except ε PUnit) : Except ε PUnit :=
  if condition then x else .ok ⟨⟩

theorem onlyIf_eq_ok {condition : Bool} {x : Except ε PUnit} {u : PUnit} :
    onlyIf condition x = .ok u ↔ (condition = true → x = .ok u) := by
  cases condition <;> simp [onlyIf]

/-- **Invariant rule for a loop**; the invariant may mention what is left of the list. -/
theorem foldlM_induction {ι : Type w} {σ : Type v} {body : σ → ι → Except ε σ}
    (I : List ι → σ → Prop)
    (step : ∀ i rest s s', I (i :: rest) s → body s i = .ok s' → I rest s') :
    ∀ {l : List ι} {s s' : σ}, I l s → l.foldlM body s = .ok s' → I [] s'
  | [], s, s', hI, hrun => by
      simp only [foldlM_nil, pure_eq_ok_iff] at hrun
      exact hrun ▸ hI
  | i :: rest, s, s', hI, hrun => by
      rw [foldlM_cons, bind_eq_ok] at hrun
      obtain ⟨mid, hbody, hrest⟩ := hrun
      exact foldlM_induction I step (step i rest s mid hI hbody) hrest

theorem foldlM_eq_ok_foldl {ι : Type w} {σ : Type v} {body : σ → ι → Except ε σ} {f : σ → ι → σ} :
    ∀ {l : List ι} {s : σ}, (∀ s, ∀ i ∈ l, body s i = .ok (f s i)) →
      l.foldlM body s = .ok (l.foldl f s)
  | [], _, _ => rfl
  | i :: l, s, h => by
      rw [foldlM_cons, h s i mem_cons_self, ok_bind, foldl_cons,
        foldlM_eq_ok_foldl fun s j hj => h s j (mem_cons_of_mem i hj)]

/-! ### Which errors are possible -/

/-- If the program stops, then with an error that satisfies `P`. -/
def StopsWith (P : ε → Prop) (x : Except ε α) : Prop := ∀ e, x = .error e → P e

theorem stopsWith_ok (P : ε → Prop) (a : α) : StopsWith P (.ok a) := by
  intro e h
  cases h

theorem stopsWith_error (h : P e) : StopsWith P (.error e : Except ε α) := by
  intro e' he
  cases he
  exact h

theorem stopsWith_require (h : P e) (condition : Bool) : StopsWith P (require condition e) := by
  cases condition with
  | true => exact stopsWith_ok P _
  | false => exact stopsWith_error h

theorem stopsWith_bind {f : α → Except ε β}
    (hx : StopsWith P x) (hf : ∀ a, x = .ok a → StopsWith P (f a)) : StopsWith P (x >>= f) := by
  cases x with
  | error e => exact stopsWith_error (hx e rfl)
  | ok a => exact hf a rfl

theorem stopsWith_require_bind {condition : Bool} {f : PUnit → Except ε β} (h : P e)
    (hf : condition = true → StopsWith P (f ⟨⟩)) : StopsWith P (require condition e >>= f) :=
  stopsWith_bind (stopsWith_require h condition) fun _ hc => hf (require_eq_ok.mp hc)

theorem stopsWith_onlyIf {x : Except ε PUnit} (hx : StopsWith P x)
    (condition : Bool) : StopsWith P (onlyIf condition x) := by
  cases condition with
  | true => exact hx
  | false => exact stopsWith_ok P _

theorem stopsWith_ite {c : Prop} [Decidable c] {y : Except ε α}
    (hx : StopsWith P x) (hy : StopsWith P y) : StopsWith P (if c then x else y) := by
  split
  · exact hx
  · exact hy

theorem stopsWith_forM {ι : Type w} {P : ε → Prop} {body : ι → Except ε PUnit} :
    ∀ {l : List ι}, (∀ i ∈ l, StopsWith P (body i)) → StopsWith P (l.forM body)
  | [], _ => stopsWith_ok P _
  | i :: _, h =>
      stopsWith_bind (h i mem_cons_self) fun _ _ =>
        stopsWith_forM fun j hj => h j (mem_cons_of_mem i hj)

theorem stopsWith_foldlM {ι : Type w} {σ : Type v} {P : ε → Prop} {body : σ → ι → Except ε σ}
    (I : σ → Prop) (hstep : ∀ s i s', I s → body s i = .ok s' → I s')
    (hstop : ∀ s i, I s → StopsWith P (body s i)) :
    ∀ {l : List ι} {s : σ}, I s → StopsWith P (l.foldlM body s)
  | [], s, _ => stopsWith_ok P s
  | i :: rest, s, hI => by
      rw [foldlM_cons]
      exact stopsWith_bind (hstop s i hI) fun s' hs' =>
        stopsWith_foldlM I hstep hstop (hstep s i s' hI hs')

/-! ### Programs that run one after the other -/

/-- Where programs lead, each run in a state in which it is allowed. -/
inductive Reached {ι : Type w} {σ : Type v} (run : ι → σ → Except ε σ) (allowed : σ → ι → Prop)
    (start : σ) : σ → Prop
  | start : Reached run allowed start start
  | step {s s' : σ} {i : ι} : Reached run allowed start s → allowed s i → run i s = .ok s' →
      Reached run allowed start s'

theorem Reached.invariant {ι : Type w} {σ : Type v} {run : ι → σ → Except ε σ}
    {allowed : σ → ι → Prop} {start s : σ} (h : Reached run allowed start s) (I : σ → Prop)
    (hstart : I start)
    (hstep : ∀ s i s', I s → allowed s i → run i s = .ok s' → I s') : I s := by
  induction h with
  | start => exact hstart
  | step _ hallowed hrun ih => exact hstep _ _ _ ih hallowed hrun

/-- A list of programs that are always allowed. -/
theorem Reached.foldlM {ι : Type w} {σ : Type v} {run : ι → σ → Except ε σ}
    {allowed : σ → ι → Prop} {start : σ} {is : List ι} (hallowed : ∀ i ∈ is, ∀ s, allowed s i) :
    ∀ {s s' : σ}, Reached run allowed start s → is.foldlM (fun s i => run i s) s = .ok s' →
      Reached run allowed start s' := by
  induction is with
  | nil =>
    intro s s' hreached h
    cases h
    exact hreached
  | cons i is ih =>
    intro s s' hreached h
    rw [foldlM_cons, bind_eq_ok] at h
    obtain ⟨next, hnext, h⟩ := h
    exact ih (fun other hmem => hallowed other (mem_cons_of_mem _ hmem))
      (hreached.step (hallowed i mem_cons_self s) hnext) h

end VBitcoin
