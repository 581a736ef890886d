/-
# The inflater on arbitrary input

Whatever bytes a peer sends, the inflater stays in order: it stops, no assertion fails, the table
is accounted for and within its limits, and every call makes progress.

* `Inflater.Safe`: the invariant; an index that has been read is valid until the field is
  committed;
* `inflateStep_safe`: one turn of the loop;
* `inflateLoop_safe`: one call;
* `Reachable.good`: every sequence of calls;
* `inflateHd2_safe`: what follows from this.
-/
import Nghttp2.Inflate

namespace Nghttp2.Hd.Inflater

open Resumable SizedFifo

variable {i i' : Inflater} {inp rest : Bytes} {huff busy inFinal : Bool} {em : Emitted}
  {e : HdError} {c : CallResult} {n : ℕ}

/-! ## The invariant -/

/-- The states after the name of a literal field. -/
def NeedsName (i : Inflater) : Prop :=
  i.state = .checkValuelen ∨ i.state = .readValuelen ∨ i.ReadsValue

/-- The table is in order, and the name of the field that is being read is there. -/
structure Safe (i : Inflater) : Prop where
  sound : i.ctx.Sound
  max_le : i.ctx.hdTableBufsizeMax ≤ i.settingsHdTableBufsizeMax
  newname : i.state = .newnameCheckNamelen ∨ i.state = .newnameReadNamelen ∨ i.ReadsName →
    i.opcode = .newname
  index : i.NeedsName → i.opcode ≠ .newname →
    i.index < i.ctx.hdTable.length + staticTableLength

/-- An inflater that has failed keeps its table. -/
structure Failed (i : Inflater) : Prop where
  bad : i.ctx.bad = true
  sound : i.ctx.Sound
  max_le : i.ctx.hdTableBufsizeMax ≤ i.settingsHdTableBufsizeMax

theorem Safe.markBad (h : i.Safe) : i.markBad.Failed :=
    ⟨rfl, ⟨h.sound.bufsize, h.sound.le_max⟩, h.max_le⟩

/-- What one turn does. -/
def StepSafe (i : Inflater) (inp : Bytes) : InflateStage → Prop
  | .next i' rest busy => i'.Safe ∧ (busy = false → ¬i'.ReadsValue) ∧
    ∃ used, inp = used ++ rest ∧ (i'.ReadsValue → used ≠ [])
  | .emit i' rest _ => i'.Safe ∧ i'.state = .opcode ∧
    ∃ used, inp = used ++ rest ∧ ((i.ReadsValue → i.left ≠ 0) → used ≠ [])
  | .wait i' rest => i'.Safe ∧ rest = [] ∧ (i'.ReadsValue → i'.left ≠ 0)
  | .fail i' e => i'.Failed ∧ e ≠ .assertFailed

/-! ## One turn -/

/-- Valid indices have entries. -/
theorem exists_tableGet {c : Context} {k : ℕ} (h : k < c.hdTable.length + staticTableLength) :
    ∃ ent, c.tableGet k = some ent := by
  have hstatic : staticTable.length = staticTableLength := rfl
  unfold Context.tableGet
  split
  · exact ⟨_, List.getElem?_eq_getElem (by omega)⟩
  · exact ⟨_, List.getElem?_eq_getElem (by omega)⟩

variable {buf : Bytes} {cap : ℕ}

theorem addb_error {b : UInt8} (h : addb cap buf b = .error e) : e ≠ .assertFailed := by
  unfold addb at h
  split at h
  · cases h
  · cases h
    exact nofun

theorem huffDecodeNibble_error {state nibble : ℕ}
    (h : huffDecodeNibble cap state nibble buf = .error e) : e ≠ .assertFailed := by
  unfold huffDecodeNibble at h
  dsimp only at h
  split at h
  · cases h
    exact nofun
  split at h
  · next sym _ =>
    cases hadd : addb cap buf sym with
    | ok buf' => simp [hadd, Except.map] at h
    | error e' =>
      simp only [hadd, Except.map, Except.error.injEq] at h
      exact h ▸ addb_error hadd
  · cases h

theorem bind_eq_error {α β : Type} {r : Except HdError α} {f : α → Except HdError β}
    (h : (r >>= f) = .error e) : r = .error e ∨ ∃ a, r = .ok a ∧ f a = .error e := by
  cases r with
  | error e' =>
    cases h
    exact Or.inl rfl
  | ok a => exact Or.inr ⟨a, rfl, h⟩

/-- Decoding fails no assertion. -/
theorem huffDecodeLoop_error :
    ∀ {l : Bytes} {ctx : HuffContext} {buf : Bytes}, huffDecodeLoop cap ctx buf l = .error e →
      e ≠ .assertFailed
  | [], _, _, h => nomatch h
  | b :: l, ctx, buf, h => by
    rw [huffDecodeLoop] at h
    rcases bind_eq_error h with h | ⟨⟨t, buf1⟩, -, h⟩
    · exact huffDecodeNibble_error h
    · rcases bind_eq_error h with h | ⟨⟨t, buf2⟩, -, h⟩
      · exact huffDecodeNibble_error h
      · exact huffDecodeLoop_error h

/-- Reading a string fails only because of its contents or its length. -/
theorem readBytes_error (h : i.readBytes huff inp = .error e) : e ≠ .assertFailed := by
  unfold readBytes at h
  dsimp only at h
  split at h
  · rcases bind_eq_error h with h | ⟨r, -, h⟩
    · unfold huffDecodeAll at h
      rcases bind_eq_error h with h | ⟨⟨ctx, buf⟩, -, h⟩
      · exact huffDecodeLoop_error h
      · dsimp only at h
        split at h
        · cases h
          exact nofun
        · cases h
    · cases h
  · rcases bind_eq_error h with h | ⟨r, -, h⟩
    · unfold addBytes at h
      split at h
      · cases h
      · cases h
        exact nofun
    · cases h

/-- A state that needs no name. -/
theorem Safe.of_state {i0 : Inflater} (h : i0.Safe) (hctx : i.ctx = i0.ctx)
    (hset : i.settingsHdTableBufsizeMax = i0.settingsHdTableBufsizeMax)
    (hname : ¬(i.state = .newnameCheckNamelen ∨ i.state = .newnameReadNamelen ∨ i.ReadsName))
    (hindex : ¬i.NeedsName) : i.Safe where
  sound := hctx ▸ h.sound
  max_le := by
    rw [hctx, hset]
    exact h.max_le
  newname hn := absurd hn hname
  index hi := absurd hi hindex

theorem Safe.commitLiteral (h : i.Safe) (name value : Bytes) (token : Option ℕ) :
    ({ (i.commitLiteral name value token).1 with state := .opcode } : Inflater).Safe := by
  unfold Inflater.commitLiteral
  split
  · exact {
      sound := h.sound.addHdTableIncremental _
      max_le := (h.sound.addHdTableIncremental_max _).trans_le h.max_le
      newname := by simp [ReadsName]
      index := by simp [NeedsName, ReadsValue] }
  · exact h.of_state rfl rfl (by simp [ReadsName]) (by simp [NeedsName, ReadsValue])

/-- A literal field is committed: its name is there. -/
theorem Safe.commitValue (h : i.Safe) (hvalue : i.ReadsValue) :
    ∃ i' em, i.commitValue = .ok (i', em) ∧ ({ i' with state := .opcode } : Inflater).Safe := by
  unfold Inflater.commitValue
  split
  · exact ⟨_, _, rfl, h.commitLiteral _ _ _⟩
  · next hop =>
    obtain ⟨ent, hent⟩ := exists_tableGet (h.index (Or.inr (Or.inr hvalue)) hop)
    rw [commitIndname, hent]
    exact ⟨_, _, rfl, h.commitLiteral _ _ _⟩

theorem Enters.safe {i1 : Inflater} {check read : InflateState} (hi : i.Enters i1 check read)
    (h : i.Safe)
    (hstates : check = .newnameCheckNamelen ∧ read = .newnameReadNamelen ∨
      check = .checkValuelen ∧ read = .readValuelen) : i1.Safe := by
  rcases hi.2 with rfl | ⟨hcheck, huff', rfl⟩
  · exact h
  · refine ⟨h.sound, h.max_le, fun hn => h.newname ?_, fun hneeds => h.index ?_⟩
    · rcases hstates with ⟨rfl, rfl⟩ | ⟨rfl, rfl⟩
      · exact Or.inl hcheck
      · simp [ReadsName] at hn
    · rcases hstates with ⟨rfl, rfl⟩ | ⟨rfl, rfl⟩
      · simp [NeedsName, ReadsValue] at hneeds
      · exact Or.inl hcheck

/-- **Every turn is safe.** -/
theorem inflateStep_safe (i : Inflater) (inp : Bytes) (h : i.Safe) :
    i.StepSafe inp (i.inflateStep inp) := by
  have hbad : (i.StepSafe inp (.fail i.markBad .headerComp)) := ⟨h.markBad, by simp⟩
  apply inflateStep_ind i inp
  case hidle => exact fun hinp _ hvalue => ⟨h, rfl, fun hv => absurd hv hvalue⟩
  case hfail => exact hbad
  case hopcode =>
    intro _ hinp
    apply readOpcode_ind hinp hbad
    · intro op state req noIndex hcase
      have hstate : state = .readTableSize ∨ state = .readIndex := by tauto
      refine ⟨h.of_state rfl rfl ?_ ?_, fun _ => ?_, [], rfl, fun hv => ?_⟩
      · rcases hstate with rfl | rfl <;> simp [ReadsName]
      · rcases hstate with rfl | rfl <;> simp [NeedsName, ReadsValue]
      · rcases hstate with rfl | rfl <;> simp [ReadsValue]
      · rcases hstate with rfl | rfl <;> simp [ReadsValue] at hv
    · rintro b l req noIndex rfl
      refine ⟨⟨h.sound, h.max_le, fun _ => rfl, by simp [NeedsName, ReadsValue]⟩, ?_, [b], rfl, ?_⟩
      · simp [ReadsValue]
      · simp
  case htable =>
    intro hstate
    apply readLen_ind hbad
    · intro d _ _ _
      exact ⟨h.of_state rfl rfl (by simp [ReadsName, hstate])
        (by simp [NeedsName, ReadsValue, hstate]), rfl, by simp [ReadsValue, hstate]⟩
    · rintro n shift used rest hused hinp hn
      refine ⟨⟨Context.shrinkTableSize_sound h.sound.bufsize, ?_, by simp [ReadsName],
        by simp [NeedsName, ReadsValue]⟩, by simp [ReadsValue], used, hinp, fun _ => hused⟩
      rw [Context.shrinkTableSize_max]
      exact hn
  case hindex =>
    intro hstate
    apply readLen_ind hbad
    · intro d _ _ _
      exact ⟨h.of_state rfl rfl (by simp [ReadsName, hstate])
        (by simp [NeedsName, ReadsValue, hstate]), rfl, by simp [ReadsValue, hstate]⟩
    intro n shift used rest hused hinp hn
    dsimp only
    split
    · exact ⟨Safe.markBad (h.of_state rfl rfl (by simp [ReadsName, hstate])
        (by simp [NeedsName, ReadsValue, hstate])), by simp⟩
    · next hzero =>
      -- the length of the table has been compared with the index
      have hlt : n - 1 < i.ctx.hdTable.length + staticTableLength := by
        have hstatic : staticTableLength = 61 := rfl
        unfold Context.getMaxIndex at hn
        omega
      split
      · obtain ⟨ent, hent⟩ := exists_tableGet hlt
        simp only [commitIndexed, hent]
        exact ⟨h.of_state rfl rfl (by simp [ReadsName]) (by simp [NeedsName, ReadsValue]), rfl,
          used, hinp, fun _ => hused⟩
      · refine ⟨⟨h.sound, h.max_le, by simp [ReadsName], fun _ _ => hlt⟩, by simp [ReadsValue],
          used, hinp, fun _ => hused⟩
  case hnamelen =>
    intro i1 hi
    have h1 := hi.safe h (Or.inl ⟨rfl, rfl⟩)
    have hop := h1.newname (Or.inr (Or.inl hi.1))
    apply readLen_ind ⟨h1.markBad, by simp⟩
    · intro d _ _ _
      exact ⟨⟨h1.sound, h1.max_le, fun _ => hop, fun _ hne => absurd hop hne⟩, rfl,
        by simp [ReadsValue, hi.1]⟩
    · intro n shift used rest hused hinp _
      split
      · exact ⟨⟨h1.sound, h1.max_le, fun _ => hop, fun _ hne => absurd hop hne⟩,
          by simp [ReadsValue], used, hinp, fun _ => hused⟩
      · exact ⟨⟨h1.sound, h1.max_le, fun _ => hop, fun _ hne => absurd hop hne⟩,
          by simp [ReadsValue], used, hinp, fun _ => hused⟩
  case hvaluelen =>
    intro i1 hi
    have h1 := hi.safe h (Or.inr ⟨rfl, rfl⟩)
    have hindex := h1.index (Or.inr (Or.inl hi.1))
    apply readLen_ind ⟨h1.markBad, by simp⟩
    · intro d _ _ _
      exact ⟨⟨h1.sound, h1.max_le, by simp [ReadsName, hi.1], fun _ => hindex⟩, rfl,
        by simp [ReadsValue, hi.1]⟩
    · intro n shift used rest hused hinp _
      split
      · exact ⟨⟨h1.sound, h1.max_le, by simp [ReadsName], fun _ => hindex⟩, by simp, used, hinp,
          fun _ => hused⟩
      · exact ⟨⟨h1.sound, h1.max_le, by simp [ReadsName], fun _ => hindex⟩, by simp, used, hinp,
          fun _ => hused⟩
  case hname =>
    intro hname huff
    have hop := h.newname (Or.inr (Or.inr hname))
    have hvalue : ¬i.ReadsValue := by
      rcases hname with hstate | hstate <;> simp [ReadsValue, hstate]
    apply readString_ind (fun e he => ⟨h.markBad, readBytes_error he⟩)
    · intro ctx buf left _ _
      exact ⟨⟨h.sound, h.max_le, fun _ => hop, fun _ hne => absurd hop hne⟩, rfl,
        fun hv => absurd hv hvalue⟩
    · intro ctx buf _
      apply finishName_ind
      · exact fun e he => ⟨⟨rfl, ⟨h.sound.bufsize, h.sound.le_max⟩, h.max_le⟩, addb_error he⟩
      · intro buf'
        exact ⟨⟨h.sound, h.max_le, fun _ => hop, fun _ hne => absurd hop hne⟩, by simp [ReadsValue],
          inp.take i.left, (List.take_append_drop _ _).symm, by simp [ReadsValue]⟩
  case hvalue =>
    intro hvalue huff
    have hindex := h.index (Or.inr (Or.inr hvalue))
    have hname : ¬(i.state = .newnameCheckNamelen ∨ i.state = .newnameReadNamelen ∨
        i.ReadsName) := by
      rcases hvalue with hstate | hstate <;> simp [ReadsName, hstate]
    apply readString_ind (fun e he => ⟨h.markBad, readBytes_error he⟩)
    · intro ctx buf left _ hleft
      exact ⟨⟨h.sound, h.max_le, fun hn => absurd hn hname, fun _ => hindex⟩, rfl, fun _ => hleft⟩
    intro ctx buf hle
    have hsafe : ∀ buf' : Bytes, ({ i with
        huffDecodeCtx := ctx, nvbufs := buf', left := 0 } : Inflater).Safe := fun _ =>
      ⟨h.sound, h.max_le, fun hn => absurd hn hname, fun _ => hindex⟩
    apply finishValue_ind
    · exact fun e he => ⟨(hsafe _).markBad, addb_error he⟩
    · intro buf' e he
      obtain ⟨i', em, hok, -⟩ := (hsafe buf').commitValue hvalue
      cases hok.symm.trans he
    intro buf' i' em hem
    obtain ⟨i'', em', hok, hi⟩ := (hsafe buf').commitValue hvalue
    cases hok.symm.trans hem
    refine ⟨hi, rfl, inp.take i.left, (List.take_append_drop _ _).symm, fun hleft htake => ?_⟩
    rcases List.take_eq_nil_iff.1 htake with hzero | hnil
    · exact hleft hvalue hzero
    · rw [hnil] at hle
      exact hleft hvalue (Nat.le_zero.1 hle)

/-! ## One call -/

/-- What one call does. -/
def CallSafe (i : Inflater) (inp : Bytes) : CallResult → Prop
  | .emit i' rest _ => i'.Safe ∧ i'.state = .opcode ∧
    ∃ used, inp = used ++ rest ∧ ((i.ReadsValue → i.left ≠ 0) → used ≠ [])
  | .final i' rest => rest = [] ∧ i'.Safe ∧ (i'.ReadsValue → i'.left ≠ 0)
  | .more i' rest => rest = [] ∧ i'.Safe ∧ (i'.ReadsValue → i'.left ≠ 0)
  | .error i' e => i'.Failed ∧ e ≠ .assertFailed

theorem CallSafe.cons {used : Bytes} (h : i'.CallSafe rest c) (hinp : inp = used ++ rest)
    (hused : (i'.ReadsValue → i'.left ≠ 0) ∨ used ≠ []) : i.CallSafe inp c := by
  cases c with
  | emit j rest' em =>
    obtain ⟨hsafe, hstate, used', rfl, hused'⟩ := h
    refine ⟨hsafe, hstate, used ++ used', by rw [hinp, List.append_assoc], fun _ hnil => ?_⟩
    obtain ⟨hnil, hnil'⟩ := List.append_eq_nil_iff.1 hnil
    rcases hused with hleft | hne
    · exact hused' hleft hnil'
    · exact hne hnil
  | final j rest' => exact h
  | more j rest' => exact h
  | error j e => exact h

/-- **A call keeps the inflater in order.** -/
theorem inflateLoop_safe (inFinal : Bool) :
    ∀ {fuel : ℕ} {i : Inflater} {inp : Bytes} {busy : Bool}, i.Safe →
      (busy = false → i.ReadsValue → i.left ≠ 0) → i.size inp < fuel →
        i.CallSafe inp (inflateLoop inFinal fuel i inp busy)
  | 0, _, _, _, _, _, hfuel => absurd hfuel (Nat.not_lt_zero _)
  | fuel + 1, i, inp, busy, h, hbusy, hfuel => by
    rw [inflateLoop]
    split
    · next hstop =>
      obtain ⟨rfl, rfl⟩ := hstop
      split
      · split
        · exact ⟨h.markBad, by simp⟩
        · exact ⟨rfl, h, hbusy rfl⟩
      · exact ⟨rfl, h, hbusy rfl⟩
    have hstep := i.inflateStep_safe inp h
    have hshrink := i.inflateStep_shrinks inp
    split
    · next i' rest busy' heq =>
      rw [heq] at hstep hshrink
      obtain ⟨hsafe, hvalue, used, hinp, hused⟩ := hstep
      have hlt : i'.size rest < i.size inp := hshrink
      have hrest := inflateLoop_safe inFinal hsafe (fun hb hv => absurd hv (hvalue hb))
        (show i'.size rest < fuel by omega)
      refine hrest.cons hinp ?_
      by_cases hv : i'.ReadsValue
      · exact Or.inr (hused hv)
      · exact Or.inl fun hv' => absurd hv' hv
    · next i' rest em heq =>
      rw [heq] at hstep
      exact hstep
    · next i' rest heq =>
      rw [heq] at hstep
      obtain ⟨hsafe, hrest, hleft⟩ := hstep
      split
      · exact ⟨hsafe.markBad, by simp⟩
      · exact ⟨hrest, hsafe, hleft⟩
    · next i' e heq =>
      rw [heq] at hstep
      exact hstep

/-- More fuel makes no difference: the loop comes to its end before. -/
theorem inflateLoop_fuel (inFinal : Bool) :
    ∀ {fuel fuel' : ℕ} {i : Inflater} {inp : Bytes} {busy : Bool}, i.size inp < fuel →
      i.size inp < fuel' → inflateLoop inFinal fuel i inp busy =
        inflateLoop inFinal fuel' i inp busy
  | 0, _, _, _, _, h, _ => absurd h (Nat.not_lt_zero _)
  | _ + 1, 0, _, _, _, _, h => absurd h (Nat.not_lt_zero _)
  | fuel + 1, fuel' + 1, i, inp, busy, h, h' => by
    rw [inflateLoop, inflateLoop]
    have hshrink := i.inflateStep_shrinks inp
    split
    · rfl
    cases hstep : i.inflateStep inp with
    | next i' rest busy' =>
      rw [hstep] at hshrink
      have hlt : i'.size rest < i.size inp := hshrink
      exact inflateLoop_fuel inFinal (by omega) (by omega)
    | emit i' rest em => rfl
    | wait i' rest => rfl
    | fail i' e => rfl

/-! ## Every sequence of calls -/

/-- What the application may call. -/
inductive Call
  | inflateHd2 (inp : Bytes) (inFinal : Bool)
  | changeTableSize (settingsHdTableBufsizeMax : ℕ)
  | endHeaders
deriving DecidableEq, Repr

/-- The inflater after a call. -/
def CallResult.inflater : CallResult → Inflater
  | .emit i _ _ => i
  | .final i _ => i
  | .more i _ => i
  | .error i _ => i

/-- A call of the application. -/
def call (i : Inflater) : Call → Inflater
  | .inflateHd2 inp inFinal => (i.inflateHd2 inp inFinal).inflater
  | .changeTableSize n => (i.changeTableSize n).getD i
  | .endHeaders => i.endHeaders

/-- Between two calls the inflater is in order, or it has failed. -/
def Good (i : Inflater) : Prop := i.Safe ∧ (i.ReadsValue → i.left ≠ 0) ∨ i.Failed

theorem init_good : init.Good :=
  Or.inl ⟨⟨Context.init_sound, le_rfl, by simp [init, ReadsName],
    by simp [init, NeedsName, ReadsValue]⟩, by simp [init, ReadsValue]⟩

theorem inflateHd2_of_bad (h : i.ctx.bad = true) :
    i.inflateHd2 inp inFinal = .error i .headerComp := by
  rw [inflateHd2, if_pos h]

/-- **Every call is safe.** -/
theorem inflateHd2_callSafe (h : i.Safe) (hleft : i.ReadsValue → i.left ≠ 0) (inp : Bytes)
    (inFinal : Bool) : i.CallSafe inp (i.inflateHd2 inp inFinal) := by
  unfold inflateHd2
  split
  · next hbad => exact ⟨⟨hbad, h.sound, h.max_le⟩, nofun⟩
  · exact inflateLoop_safe inFinal h (fun _ => hleft) (i.size_lt inp)

theorem changeTableSize_good (h : i.ctx.Sound) (hchange : i.changeTableSize n = some i') :
    i'.Good := by
  unfold changeTableSize at hchange
  have hsound := Context.shrinkTableSize_sound
    (show ({ i.ctx with hdTableBufsizeMax := n } : Context).hdTableBufsize = _ from h.bufsize)
  split at hchange
  · cases hchange
    exact Or.inl ⟨⟨hsound, by simp, by simp [ReadsName], by simp [NeedsName, ReadsValue]⟩,
      by simp [ReadsValue]⟩
  · cases hchange
    exact Or.inl ⟨⟨hsound, by simp, by simp [ReadsName], by simp [NeedsName, ReadsValue]⟩,
      by simp [ReadsValue]⟩
  · cases hchange

theorem Good.sound (h : i.Good) : i.ctx.Sound := h.elim (fun h => h.1.sound) Failed.sound

theorem Good.max_le (h : i.Good) : i.ctx.hdTableBufsizeMax ≤ i.settingsHdTableBufsizeMax :=
  h.elim (fun h => h.1.max_le) Failed.max_le

/-- Every call keeps the inflater good. -/
theorem Good.call (h : i.Good) (c : Call) : (i.call c).Good := by
  cases c with
  | inflateHd2 inp inFinal =>
    show (i.inflateHd2 inp inFinal).inflater.Good
    rcases h with ⟨hsafe, hleft⟩ | hfailed
    · have hcall := inflateHd2_callSafe hsafe hleft inp inFinal
      cases hres : i.inflateHd2 inp inFinal with
      | emit i' rest em =>
        rw [hres] at hcall
        refine Or.inl ⟨hcall.1, fun hv => ?_⟩
        simp [ReadsValue, CallResult.inflater, hcall.2.1] at hv
      | final i' rest =>
        rw [hres] at hcall
        exact Or.inl hcall.2
      | more i' rest =>
        rw [hres] at hcall
        exact Or.inl hcall.2
      | error i' e =>
        rw [hres] at hcall
        exact Or.inr hcall.1
    · rw [inflateHd2_of_bad hfailed.bad]
      exact Or.inr hfailed
  | changeTableSize n =>
    show ((i.changeTableSize n).getD i).Good
    cases hchange : i.changeTableSize n with
    | none => exact h
    | some i' => exact changeTableSize_good h.sound hchange
  | endHeaders =>
    show i.endHeaders.Good
    exact Or.inl ⟨⟨h.sound, h.max_le, by simp [endHeaders, ReadsName],
      by simp [endHeaders, NeedsName, ReadsValue]⟩, by simp [endHeaders, ReadsValue]⟩

/-- **Every run.** -/
theorem good_of_calls (calls : List Call) (h : i.Good) : (calls.foldl call i).Good := by
  induction calls generalizing i with
  | nil => exact h
  | cons c calls ih => exact ih (h.call c)

theorem bad_call (h : i.ctx.bad = true) (c : Call) : (i.call c).ctx.bad = true := by
  cases c with
  | inflateHd2 inp inFinal =>
    show (i.inflateHd2 inp inFinal).inflater.ctx.bad = true
    rw [inflateHd2_of_bad h]
    exact h
  | changeTableSize n =>
    show ((i.changeTableSize n).getD i).ctx.bad = true
    unfold changeTableSize
    split
    · exact (Context.shrinkTableSize_bad _).trans h
    · exact (Context.shrinkTableSize_bad _).trans h
    · exact h
  | endHeaders => exact h

/-- A failed inflater stays so. -/
theorem bad_of_calls (calls : List Call) (h : i.ctx.bad = true) :
    (calls.foldl call i).ctx.bad = true := by
  induction calls generalizing i with
  | nil => exact h
  | cons c calls ih => exact ih (bad_call h c)

/-- **A call makes progress.** -/
theorem Good.inflateHd2 (h : i.Good) (inp : Bytes) (inFinal : Bool) :
    match i.inflateHd2 inp inFinal with
    | .emit _ rest _ => ∃ used, used ≠ [] ∧ inp = used ++ rest
    | .final _ rest => rest = []
    | .more _ rest => rest = []
    | .error i' e => i'.ctx.bad = true ∧ e ≠ .assertFailed := by
  rcases h with ⟨hsafe, hleft⟩ | hfailed
  · have hcall := inflateHd2_callSafe hsafe hleft inp inFinal
    cases hres : i.inflateHd2 inp inFinal with
    | emit i' rest em =>
      rw [hres] at hcall
      obtain ⟨-, -, used, hinp, hused⟩ := hcall
      exact ⟨used, hused hleft, hinp⟩
    | final i' rest =>
      rw [hres] at hcall
      exact hcall.1
    | more i' rest =>
      rw [hres] at hcall
      exact hcall.1
    | error i' e =>
      rw [hres] at hcall
      exact ⟨hcall.1.bad, hcall.2⟩
  · rw [inflateHd2_of_bad hfailed.bad]
    exact ⟨hfailed.bad, nofun⟩

theorem Good.markBad (h : i.Good) : i.markBad.Good :=
  .inr ⟨rfl, ⟨h.sound.bufsize, h.sound.le_max⟩, h.max_le⟩

/-- **The inflater is safe on arbitrary input.** -/
theorem inflateHd2_safe (calls : List Call) :
    let i := calls.foldl call init
    (i.ctx.hdTableBufsize =
        (i.ctx.hdTable.map fun ent => 32 + ent.name.length + ent.value.length).sum ∧
      i.ctx.hdTableBufsize ≤ i.ctx.hdTableBufsizeMax ∧
      i.ctx.hdTableBufsizeMax ≤ i.settingsHdTableBufsizeMax) ∧
    ∀ (inp : Bytes) (inFinal : Bool),
      (∀ fuel, 3 * inp.length + 3 ≤ fuel → inflateLoop inFinal fuel i inp false =
        inflateLoop inFinal (3 * inp.length + 3) i inp false) ∧
      match i.inflateHd2 inp inFinal with
      | .emit _ rest _ => ∃ used, used ≠ [] ∧ inp = used ++ rest
      | .final _ rest => rest = []
      | .more _ rest => rest = []
      | .error i' e => e ≠ .assertFailed ∧ ∀ (later : List Call) (inp' : Bytes) (inFinal' : Bool),
        (later.foldl call i').inflateHd2 inp' inFinal' =
          .error (later.foldl call i') .headerComp := by
  intro i
  have hgood : i.Good := good_of_calls calls init_good
  refine ⟨⟨hgood.sound.bufsize, hgood.sound.le_max, hgood.max_le⟩, fun inp inFinal => ⟨?_, ?_⟩⟩
  · intro fuel hfuel
    have hsize := i.size_lt inp
    exact inflateLoop_fuel inFinal (by omega) hsize
  have hcall := hgood.inflateHd2 inp inFinal
  cases hres : i.inflateHd2 inp inFinal with
  | error i' e =>
    rw [hres] at hcall
    exact ⟨hcall.2, fun later _ _ => inflateHd2_of_bad (bad_of_calls later hcall.1)⟩
  | _ =>
    rw [hres] at hcall
    exact hcall

end Inflater

/-- An inflater as its calls leave it. -/
abbrev GoodInflater := {i : Inflater // i.Good}

/-- The inflater after a call. -/
def GoodInflater.call (i : GoodInflater) (c : Inflater.Call) : GoodInflater :=
  ⟨i.1.call c, i.2.call c⟩

end Nghttp2.Hd
