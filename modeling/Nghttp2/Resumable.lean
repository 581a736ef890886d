/-
# Resumable parsers

A parser reads its input in chunks.  In each step it looks at the input that is left: it goes on,
emits an item, waits for more input, or fails.

* `Run`: the steps of a parser on one chunk;
* `Law`: what a step has to satisfy so that the input may be cut anywhere;
* `Law.append_pending`, `Law.flatten`: then the chunks do not matter.

The states in which the parser has failed are compared by an observation.
-/
import Mathlib.Tactic

namespace Resumable

variable {σ α β ε ω : Type*}

/-- The result of a step.  A step that is `busy` has to be followed by another one, also at the
end of the input. -/
inductive Stage (σ α β ε : Type*)
  | next (s : σ) (rest : List α) (busy : Bool)
  | emit (s : σ) (rest : List α) (item : β)
  | wait (s : σ) (rest : List α)
  | fail (s : σ) (e : ε)
deriving DecidableEq, Repr

/-- What has become of the parser at the end of a chunk. -/
inductive Outcome (σ ε : Type*)
  | pending (s : σ)
  | failed (s : σ) (e : ε)
deriving DecidableEq, Repr

/-- The steps of the parser on a chunk, with the items it emits. -/
inductive Run (step : σ → List α → Stage σ α β ε) :
    σ → List α → Bool → List β → Outcome σ ε → Prop
  | stop {s : σ} : Run step s [] false [] (.pending s)
  | next {s s' : σ} {inp rest : List α} {busy busy' : Bool} {out : List β} {r : Outcome σ ε}
      (hactive : inp ≠ [] ∨ busy = true) (hstep : step s inp = .next s' rest busy')
      (hrun : Run step s' rest busy' out r) : Run step s inp busy out r
  | emit {s s' : σ} {inp rest : List α} {busy : Bool} {item : β} {out : List β}
      {r : Outcome σ ε} (hactive : inp ≠ [] ∨ busy = true)
      (hstep : step s inp = .emit s' rest item) (hrun : Run step s' rest false out r) :
      Run step s inp busy (item :: out) r
  | wait {s s' : σ} {inp : List α} {busy : Bool} (hactive : inp ≠ [] ∨ busy = true)
      (hstep : step s inp = .wait s' []) : Run step s inp busy [] (.pending s')
  | fail {s s' : σ} {inp : List α} {busy : Bool} {e : ε} (hactive : inp ≠ [] ∨ busy = true)
      (hstep : step s inp = .fail s' e) : Run step s inp busy [] (.failed s' e)

/-- The loop of the parser, with at most `n` turns. -/
def loop [DecidableEq α] (step : σ → List α → Stage σ α β ε) :
    ℕ → σ → List α → Bool → List β × Outcome σ ε
  | 0, s, _, _ => ([], .pending s)
  | n + 1, s, inp, busy =>
    if inp ≠ [] ∨ busy = true then
      match step s inp with
      | .next s' rest busy' => loop step n s' rest busy'
      | .emit s' rest item =>
        let (out, r) := loop step n s' rest false
        (item :: out, r)
      | .wait s' _ => ([], .pending s')
      | .fail s' e => ([], .failed s' e)
    else ([], .pending s)

/-- The chunks one after the other. -/
inductive Runs (step : σ → List α → Stage σ α β ε) :
    σ → List (List α) → List β → Outcome σ ε → Prop
  | nil {s : σ} : Runs step s [] [] (.pending s)
  | cons {s s' : σ} {inp : List α} {chunks : List (List α)} {out out' : List β}
      {r : Outcome σ ε} (hrun : Run step s inp false out (.pending s'))
      (hruns : Runs step s' chunks out' r) : Runs step s (inp :: chunks) (out ++ out') r
  | failed {s s' : σ} {inp : List α} {chunks : List (List α)} {out : List β} {e : ε}
      (hrun : Run step s inp false out (.failed s' e)) :
      Runs step s (inp :: chunks) out (.failed s' e)

/-- Two results of a step that differ at most in what is not observed of a failed parser. -/
def Stage.Same (obs : σ → ω) (r r' : Stage σ α β ε) : Prop :=
  r = r' ∨ ∃ s s' e, r = .fail s e ∧ r' = .fail s' e ∧ obs s = obs s'

/-- The same for the end of a chunk. -/
def Outcome.Same (obs : σ → ω) (r r' : Outcome σ ε) : Prop :=
  r = r' ∨ ∃ s s' e, r = .failed s e ∧ r' = .failed s' e ∧ obs s = obs s'

/-- How the result of a step changes when `more` follows the input. -/
def Stage.Extends (obs : σ → ω) (step : σ → List α → Stage σ α β ε) (more : List α)
    (r' : Stage σ α β ε) : Stage σ α β ε → Prop
  | .next s rest busy => r' = .next s (rest ++ more) busy
  | .emit s rest item => r' = .emit s (rest ++ more) item
  | .wait s rest => rest = [] ∧ Stage.Same obs r' (step s more)
  | .fail s e => r' = .fail s e

/-- The state after a step, unless it fails. -/
def Stage.All (P : σ → Prop) : Stage σ α β ε → Prop
  | .next s _ _ => P s
  | .emit s _ _ => P s
  | .wait s _ => P s
  | .fail _ _ => True

/-- A step that is followed by another one has made something smaller. -/
def Stage.Shrinks (size : σ → List α → ℕ) (n : ℕ) : Stage σ α β ε → Prop
  | .next s rest _ => size s rest < n
  | .emit s rest _ => size s rest < n
  | .wait _ _ => True
  | .fail _ _ => True

/-- The law of a parser whose input may be cut anywhere, for the states with the invariant. -/
structure Law (step : σ → List α → Stage σ α β ε) (Inv : σ → Prop) (obs : σ → ω) : Prop where
  extend : ∀ s inp more, Inv s → more ≠ [] →
    Stage.Extends obs step more (step s (inp ++ more)) (step s inp)
  keep : ∀ s inp, Inv s → (step s inp).All Inv

theorem Stage.Shrinks.mono {size : σ → List α → ℕ} {n m : ℕ} (hle : n ≤ m) :
    ∀ {r : Stage σ α β ε}, r.Shrinks size n → r.Shrinks size m
  | .next _ _ _, h => lt_of_lt_of_le h hle
  | .emit _ _ _, h => lt_of_lt_of_le h hle
  | .wait _ _, h => h
  | .fail _ _, h => h

theorem Outcome.Same.refl {obs : σ → ω} (r : Outcome σ ε) : Outcome.Same obs r r := Or.inl rfl

theorem Outcome.Same.trans {obs : σ → ω} {r r' r'' : Outcome σ ε} (h : Outcome.Same obs r r')
    (h' : Outcome.Same obs r' r'') : Outcome.Same obs r r'' := by
  rcases h with rfl | ⟨s, s', e, rfl, rfl, hobs⟩
  · exact h'
  · rcases h' with rfl | ⟨t, t', e', ht, rfl, hobs'⟩
    · exact Or.inr ⟨s, s', e, rfl, rfl, hobs⟩
    · cases ht
      exact Or.inr ⟨s, t', e, rfl, rfl, hobs.trans hobs'⟩

variable {step : σ → List α → Stage σ α β ε} {Inv : σ → Prop} {obs : σ → ω} {s s' : σ}
  {inp more : List α} {busy : Bool} {out out' : List β} {r r' : Outcome σ ε}

/-- A parser has only one run. -/
theorem Run.unique (h : Run step s inp busy out r) (h' : Run step s inp busy out' r') :
    out = out' ∧ r = r' := by
  induction h generalizing out' r' with
  | stop =>
    cases h' with
    | stop => exact ⟨rfl, rfl⟩
    | next hactive => exact absurd hactive (by simp)
    | emit hactive => exact absurd hactive (by simp)
    | wait hactive => exact absurd hactive (by simp)
    | fail hactive => exact absurd hactive (by simp)
  | next hactive hstep _ ih =>
    cases h' with
    | stop => exact absurd hactive (by simp)
    | next _ hstep' hrun' =>
      cases hstep.symm.trans hstep'
      exact ih hrun'
    | emit _ hstep' => exact nomatch hstep.symm.trans hstep'
    | wait _ hstep' => exact nomatch hstep.symm.trans hstep'
    | fail _ hstep' => exact nomatch hstep.symm.trans hstep'
  | emit hactive hstep _ ih =>
    cases h' with
    | stop => exact absurd hactive (by simp)
    | emit _ hstep' hrun' =>
      cases hstep.symm.trans hstep'
      obtain ⟨rfl, rfl⟩ := ih hrun'
      exact ⟨rfl, rfl⟩
    | next _ hstep' => exact nomatch hstep.symm.trans hstep'
    | wait _ hstep' => exact nomatch hstep.symm.trans hstep'
    | fail _ hstep' => exact nomatch hstep.symm.trans hstep'
  | wait hactive hstep =>
    cases h' with
    | stop => exact absurd hactive (by simp)
    | wait _ hstep' =>
      cases hstep.symm.trans hstep'
      exact ⟨rfl, rfl⟩
    | next _ hstep' => exact nomatch hstep.symm.trans hstep'
    | emit _ hstep' => exact nomatch hstep.symm.trans hstep'
    | fail _ hstep' => exact nomatch hstep.symm.trans hstep'
  | fail hactive hstep =>
    cases h' with
    | stop => exact absurd hactive (by simp)
    | fail _ hstep' =>
      cases hstep.symm.trans hstep'
      exact ⟨rfl, rfl⟩
    | next _ hstep' => exact nomatch hstep.symm.trans hstep'
    | emit _ hstep' => exact nomatch hstep.symm.trans hstep'
    | wait _ hstep' => exact nomatch hstep.symm.trans hstep'

/-- The first step of a run may be replaced by the same step on another state and input. -/
theorem Run.of_same (hmore : more ≠ []) (hinp : inp ≠ [])
    (hsame : Stage.Same obs (step s inp) (step s' more)) (h : Run step s' more false out r) :
    ∃ r', Run step s inp busy out r' ∧ Outcome.Same obs r r' := by
  rcases hsame with heq | ⟨t, t', e, ht, ht', hobs⟩
  · refine ⟨r, ?_, Outcome.Same.refl r⟩
    cases h with
    | stop => exact absurd rfl hmore
    | next _ hstep hrun => exact .next (Or.inl hinp) (heq.trans hstep) hrun
    | emit _ hstep hrun => exact .emit (Or.inl hinp) (heq.trans hstep) hrun
    | wait _ hstep => exact .wait (Or.inl hinp) (heq.trans hstep)
    | fail _ hstep => exact .fail (Or.inl hinp) (heq.trans hstep)
  · obtain ⟨rfl, rfl⟩ := h.unique (.fail (Or.inl hmore) ht')
    exact ⟨_, .fail (Or.inl hinp) ht, Or.inr ⟨t', t, e, rfl, rfl, hobs.symm⟩⟩

namespace Law

variable (law : Law step Inv obs)
include law

variable {rest : List α} {e : ε}

theorem next (hinv : Inv s) (h : step s inp = .next s' rest busy) : Inv s' := by
  have hkeep := law.keep s inp hinv
  rw [h] at hkeep
  exact hkeep

theorem emit {item : β} (hinv : Inv s) (h : step s inp = .emit s' rest item) : Inv s' := by
  have hkeep := law.keep s inp hinv
  rw [h] at hkeep
  exact hkeep

theorem wait (hinv : Inv s) (h : step s inp = .wait s' rest) : Inv s' := by
  have hkeep := law.keep s inp hinv
  rw [h] at hkeep
  exact hkeep

theorem inv_of_run (h : Run step s inp busy out r) (hr : r = .pending s') (hinv : Inv s) :
    Inv s' := by
  induction h with
  | stop =>
    cases hr
    exact hinv
  | next _ hstep _ ih => exact ih hr (law.next hinv hstep)
  | emit _ hstep _ ih => exact ih hr (law.emit hinv hstep)
  | wait _ hstep =>
    cases hr
    exact law.wait hinv hstep
  | fail => cases hr

/-- A parser that waits has read the input. -/
theorem rest_of_wait [Nonempty α] (hinv : Inv s) (h : step s inp = .wait s' rest) : rest = [] := by
  obtain ⟨x⟩ := ‹Nonempty α›
  have hext := law.extend s inp [x] hinv (List.cons_ne_nil x [])
  rw [h] at hext
  exact hext.1

/-- **Every run comes to an end**, and the loop makes it. -/
theorem loop_run [DecidableEq α] [Nonempty α] {size : σ → List α → ℕ}
    (hsize : ∀ s inp, (step s inp).Shrinks size (size s inp)) {n : ℕ} (hn : size s inp < n)
    (hinv : Inv s) :
    Run step s inp busy (loop step n s inp busy).1 (loop step n s inp busy).2 := by
  -- the induction is on the turns, and the run may start in any state
  induction n generalizing s inp busy with
  | zero => exact absurd hn (Nat.not_lt_zero _)
  | succ n ih =>
    by_cases hactive : inp ≠ [] ∨ busy = true
    · have hshrink := hsize s inp
      rw [loop, if_pos hactive]
      cases hstep : step s inp with
      | next s' rest busy' =>
        rw [hstep] at hshrink
        exact .next hactive hstep (ih (hshrink.trans_le (Nat.le_of_lt_succ hn))
          (law.next hinv hstep))
      | emit s' rest item =>
        rw [hstep] at hshrink
        exact .emit hactive hstep (ih (hshrink.trans_le (Nat.le_of_lt_succ hn))
          (law.emit hinv hstep))
      | wait s' rest =>
        obtain rfl := law.rest_of_wait hinv hstep
        exact .wait hactive hstep
      | fail s' e => exact .fail hactive hstep
    · rw [loop, if_neg hactive]
      obtain ⟨rfl, rfl⟩ : inp = [] ∧ busy = false := by simpa using hactive
      exact .stop

/-- A run that fails does not see what follows. -/
theorem append_failed (hmore : more ≠ []) (h : Run step s inp busy out r) (hr : r = .failed s' e)
    (hinv : Inv s) : Run step s (inp ++ more) busy out (.failed s' e) := by
  induction h with
  | stop => cases hr
  | @next s _ inp _ _ _ _ _ _ hstep _ ih =>
    have hext := law.extend s inp more hinv hmore
    rw [hstep] at hext
    exact .next (Or.inl (by simp [hmore])) hext (ih hr (law.next hinv hstep))
  | @emit s _ inp _ _ _ _ _ _ hstep _ ih =>
    have hext := law.extend s inp more hinv hmore
    rw [hstep] at hext
    exact .emit (Or.inl (by simp [hmore])) hext (ih hr (law.emit hinv hstep))
  | wait => cases hr
  | @fail s _ inp _ _ _ hstep =>
    cases hr
    have hext := law.extend s inp more hinv hmore
    rw [hstep] at hext
    exact .fail (Or.inl (by simp [hmore])) hext

/-- A run that waits goes on with what follows. -/
theorem append_pending (hmore : more ≠ []) (h : Run step s inp busy out r) (hr : r = .pending s')
    (hinv : Inv s) (h' : Run step s' more false out' r') :
    ∃ r'', Run step s (inp ++ more) busy (out ++ out') r'' ∧ Outcome.Same obs r' r'' := by
  induction h with
  | @stop s =>
    cases hr
    exact ⟨r', h', Outcome.Same.refl r'⟩
  | @next s _ inp _ _ _ _ _ _ hstep _ ih =>
    have hext := law.extend s inp more hinv hmore
    rw [hstep] at hext
    obtain ⟨r'', hrun, hsame⟩ := ih hr (law.next hinv hstep)
    exact ⟨r'', .next (Or.inl (by simp [hmore])) hext hrun, hsame⟩
  | @emit s _ inp _ _ _ _ _ _ hstep _ ih =>
    have hext := law.extend s inp more hinv hmore
    rw [hstep] at hext
    obtain ⟨r'', hrun, hsame⟩ := ih hr (law.emit hinv hstep)
    exact ⟨r'', .emit (Or.inl (by simp [hmore])) hext hrun, hsame⟩
  | @wait s _ inp _ _ hstep =>
    cases hr
    have hext := law.extend s inp more hinv hmore
    rw [hstep] at hext
    exact h'.of_same hmore (by simp [hmore]) hext.2
  | fail => cases hr

/-- **The chunks do not matter.** -/
theorem flatten {chunks : List (List α)} (h : Runs step s chunks out r) (hinv : Inv s) :
    ∃ r', Run step s chunks.flatten false out r' ∧ Outcome.Same obs r r' := by
  induction h with
  | nil => exact ⟨_, .stop, Outcome.Same.refl _⟩
  | @cons s s' inp chunks out out' r hrun hruns ih =>
    obtain ⟨r', hrest, hsame⟩ := ih (law.inv_of_run hrun rfl hinv)
    rw [List.flatten_cons]
    rcases eq_or_ne chunks.flatten [] with hnil | hne
    · rw [hnil] at hrest ⊢
      obtain ⟨rfl, rfl⟩ := hrest.unique .stop
      rw [List.append_nil, List.append_nil]
      exact ⟨_, hrun, hsame⟩
    · obtain ⟨r'', happ, hsame'⟩ := law.append_pending hne hrun rfl hinv hrest
      exact ⟨r'', happ, hsame.trans hsame'⟩
  | @failed s s' inp chunks out e hrun =>
    refine ⟨_, ?_, Outcome.Same.refl _⟩
    rw [List.flatten_cons]
    rcases eq_or_ne chunks.flatten [] with hnil | hne
    · rw [hnil, List.append_nil]
      exact hrun
    · exact law.append_failed hne hrun rfl hinv

end Law

end Resumable
