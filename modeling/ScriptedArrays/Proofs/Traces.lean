import ScriptedArrays.Proofs.FirstMatches
import ScriptedArrays.Proofs.Refusals

/-! Traces. Whatever is refused leaves one record, made where it is refused: a conversion names the
slot of the innermost part that does not fit, a write beyond the bounds is refused before anything
is converted, and a search only if its start lies before the array. What is done leaves none. -/

namespace ScriptedArrays

open World

/-- The worlds differ in one record of level debug, added to the given log. -/
structure World.Records (w u : World) (channel : String) (e : Event) : Prop where
  world : u = { w with log := w.log.push e }
  channel : e.channel = channel
  severity : e.severity = .debug

section

variable {α : Type} {w u : World} {f : Fault}

theorem refuse_apply {e : Event} (he : w.threshold ≤ e.severity.number) :
    (logEvent e >>= fun _ => (fail f : Action α)) w =
      .error f { w with log := w.log.push e } :=
  bind_apply_of_ok _ (logEvent_of_le he)

end

namespace Conversion

variable {w : World} {truncates : Bool} {cell : CellType}

/-- An operand is no row of a shape: it is not cast as a whole nor taken apart into items, and not
because its length has no number. -/
structure IsNoRow (w : World) (cell : CellType) (n : Nat) (shape : List Nat) (given : Operand) :
    Prop where
  uncast : ∀ win, w.contentOf given = .window win → win.shape = n :: shape →
    win.type.content.castsSafely cell.content = false
  whole : ∀ items, ¬ Rows w cell n shape given items
  length : ∀ r v f, w.contentOf given = .plain (.record r) →
    (w.records.get r).get? "length" = some v → w.numberOf v ≠ .error f

inductive BreaksAt (w : World) (truncates : Bool) (cell : CellType) :
    List Nat → Operand → SlotType → Operand → Prop
  | value {v : Value} {unfit : Operand} {target reason : String}
      (h : toCell w truncates cell v = .error (.unfit unfit target reason)) :
      BreaksAt w truncates cell [] (.plain v) ⟨cell, []⟩ (.plain v)
  | window (win : Window) : BreaksAt w truncates cell [] (.window win) ⟨cell, []⟩ (.window win)
  | row {n : Nat} {shape : List Nat} {given : Operand} (h : IsNoRow w cell n shape given) :
      BreaksAt w truncates cell (n :: shape) given ⟨cell, n :: shape⟩ given
  | item {n : Nat} {shape : List Nat} {given x part : Operand} {before after : List Operand}
      {slot : SlotType} (hrows : Rows w cell n shape given (before ++ x :: after))
      (hbefore : ∀ y ∈ before, ∃ cells, toCells w truncates cell shape y = .ok cells)
      (h : BreaksAt w truncates cell shape x slot part) :
      BreaksAt w truncates cell (n :: shape) given slot part

section

variable {n : Nat} {shape : List Nat} {given part : Operand} {slot : SlotType}

theorem toCells_of_isNoRow (truncates : Bool) (h : IsNoRow w cell n shape given) :
    ∃ reason, toCells w truncates cell (n :: shape) given =
      .error (.unfit given (SlotType.name ⟨cell, n :: shape⟩) reason) := by
  rcases toCells_cases w truncates cell n shape given with
    ⟨win, hwin, hs, hsafe⟩ | ⟨items, hrows⟩ | hunfit | ⟨r, v, f, hr, hv, hf, -⟩
  · rw [h.uncast win hwin hs] at hsafe
    cases hsafe
  · exact absurd hrows (h.whole items)
  · exact hunfit
  · exact absurd hf (h.length r v f hr hv)

theorem toCells_of_breaksAt (h : BreaksAt w truncates cell shape given slot part) :
    ∃ reason, toCells w truncates cell shape given =
      .error (.unfit part slot.name reason) := by
  induction h with
  | @value v unfit target reason h =>
    obtain ⟨rfl, rfl⟩ := blames_toCell.unfit _ _ _ h
    refine ⟨reason, ?_⟩
    rw [toCells, h, SlotType.name_plain rfl]
    rfl
  | window win => exact ⟨"", rfl⟩
  | row h => exact toCells_of_isNoRow truncates h
  | item hrows hbefore _ ih =>
    obtain ⟨reason, hx⟩ := ih
    refine ⟨reason, ?_⟩
    rw [toCells_of_rows hrows, each_of_error hbefore hx]
    rfl

/-- A conversion that does not fit breaks somewhere, and names that place. -/
theorem breaksAt_of_toCells {unfit : Operand} {target reason : String}
    (h : toCells w truncates cell shape given = .error (.unfit unfit target reason)) :
    ∃ slot, BreaksAt w truncates cell shape given slot unfit ∧ target = slot.name := by
  induction shape generalizing given with
  | nil =>
    cases given with
    | window win =>
      cases h
      exact ⟨_, .window win, rfl⟩
    | plain v =>
      have hcell : toCell w truncates cell v = .error (.unfit unfit target reason) := by
        rw [toCells] at h
        cases hv : toCell w truncates cell v with
        | ok x =>
          rw [hv] at h
          cases h
        | error r =>
          rw [hv] at h
          cases h
          rfl
      have hname : SlotType.name ⟨cell, []⟩ = cell.name := SlotType.name_plain rfl
      obtain ⟨rfl, htarget⟩ := blames_toCell.unfit _ _ _ hcell
      exact ⟨_, .value hcell, htarget.trans hname.symm⟩
  | cons n shape ih =>
    by_cases hrows : ∃ items, Rows w cell n shape given items
    · obtain ⟨items, hrows⟩ := hrows
      -- the rows before the one that the walk fails at are converted, so the break is its own
      have heach : each (toCells w truncates cell shape) items =
          .error (.unfit unfit target reason) := by
        rw [toCells_of_rows hrows] at h
        cases he : each (toCells w truncates cell shape) items with
        | ok cells =>
          rw [he] at h
          cases h
        | error r =>
          rw [he] at h
          cases h
          rfl
      obtain ⟨before, x, after, rfl, hbefore, hx⟩ := each_error heach
      obtain ⟨slot, hbreaks, hname⟩ := ih hx
      exact ⟨slot, .item hrows hbefore hbreaks, hname⟩
    · have hno : IsNoRow w cell n shape given := by
        constructor
        · intro win hwin hs
          by_contra hsafe
          rw [toCells_of_safe hwin hs (by simpa using hsafe)] at h
          cases hm : (w.cells win).mapM (castCell win.type cell.content) <;> rw [hm] at h <;> cases h
        · exact fun items hitems => hrows ⟨items, hitems⟩
        · intro r v f hr hv hf
          rw [toCells, hr] at h
          dsimp only at h
          rw [hv] at h
          dsimp only at h
          rw [hf] at h
          cases h
      obtain ⟨reason', hreason⟩ := toCells_of_isNoRow truncates hno
      rw [hreason] at h
      cases h
      exact ⟨_, .row hno, rfl⟩

end
end Conversion

section Convert

variable {w : World} {truncates : Bool} {slot inner : SlotType} {v : Value} {part : Operand}

/-- The trace of a conversion with the given outcome. Where the part that does not fit has too many
digits to be named, the host fails before anything is logged. -/
structure TracesConversion (w : World) (truncates : Bool) (slot : SlotType) (v : Value)
    (result : EStateM.Result Fault World Value) : Prop where
  converted : ∀ x u, result = .ok x u → u.log = w.log
  refused : ∀ value target reason u, result = .error (.cannotConvert value target reason) u →
    w.Records u "jsbridge.coercion" (.conversionFailed value target reason) ∧ ∃ inner part,
      Conversion.BreaksAt w truncates slot.cell slot.shape (.plain v) inner part ∧
      value = w.quoteOperand part ∧ target = inner.name
  otherwise : ∀ f u, result = .error f u →
    (∀ value target reason, f ≠ .cannotConvert value target reason) → u = w
  breaks : ∀ inner part, Conversion.BreaksAt w truncates slot.cell slot.shape (.plain v) inner part →
    (w.quotableOperand part = true →
      ∃ reason u, result = .error (.cannotConvert (w.quoteOperand part) inner.name reason) u) ∧
    (w.quotableOperand part = false → result = .error (.host .value) w)

theorem refuseWith_unfit_of_le {α : Type} (hdebug : w.threshold ≤ Severity.debug.number)
    (hq : w.quotableOperand part = true) (target reason : String) :
    (refuseWith (.unfit part target reason) : Action α) w =
      .error (.cannotConvert (w.quoteOperand part) target reason)
        { w with log := w.log.push (.conversionFailed (w.quoteOperand part) target reason) } :=
  (refuseWith_apply hq target reason).trans (refuse_apply hdebug)

/-- A conversion goes by what is found of the value: its cells, or why there are none. -/
theorem convert_eq_toCells (truncates : Bool) (slot : SlotType) (v : Value) (w : World) :
    (∃ x u, convert truncates slot v w = .ok x u ∧ u.log = w.log ∧
      ∃ cells, Conversion.toCells w truncates slot.cell slot.shape (.plain v) = .ok cells) ∨
    ∃ r, Conversion.toCells w truncates slot.cell slot.shape (.plain v) = .error r ∧
      convert truncates slot v w = refuseWith r w := by
  by_cases hn : slot.isNested = true
  · cases hc : Conversion.toCells w truncates slot.cell slot.shape (.plain v) with
    | error r => exact .inr ⟨r, rfl, convert_of_refused hn hc⟩
    | ok cells =>
      left
      cases hr : w.reusable? (w.rowType slot v) slot.shape v with
      | some r => exact ⟨_, w, convert_of_reusable hn hc hr, rfl, cells, rfl⟩
      | none =>
        obtain ⟨vs, m, hnew, -⟩ := newArray_eq (w.rowType slot v) slot.shape cells w
        rw [convert_of_new hn hc hr, bind_apply_of_ok _ hnew]
        exact ⟨_, _, rfl, rfl, cells, rfl⟩
  · have hshape : slot.shape = [] := by simpa [SlotType.isNested] using hn
    rw [hshape, Conversion.toCells]
    cases hc : Conversion.toCell w truncates slot.cell v with
    | ok x => exact .inl ⟨_, w, convert_plain hn hc, rfl, _, rfl⟩
    | error r => exact .inr ⟨r, rfl, convert_plain_refused hn hc⟩

theorem tracesConversion (hdebug : w.threshold ≤ Severity.debug.number) (truncates : Bool)
    (slot : SlotType) (v : Value) :
    TracesConversion w truncates slot v (convert truncates slot v w) := by
  have hbreaks : ∀ inner part,
      Conversion.BreaksAt w truncates slot.cell slot.shape (.plain v) inner part →
      ∃ reason, Conversion.toCells w truncates slot.cell slot.shape (.plain v) =
        .error (.unfit part inner.name reason) :=
    fun _ _ => Conversion.toCells_of_breaksAt
  rcases convert_eq_toCells truncates slot v w with ⟨x, u, hx, hlog, cells, hc⟩ | ⟨r, hc, hr⟩
  · rw [hx]
    rw [hc] at hbreaks
    refine ⟨?_, nofun, nofun, fun inner part h => ?_⟩
    · rintro _ _ ⟨⟩
      exact hlog
    · obtain ⟨reason, hreason⟩ := hbreaks inner part h
      cases hreason
  · rw [hr]
    rw [hc] at hbreaks
    cases r with
    | host f =>
      refine ⟨nofun, nofun, ?_, fun inner part h => ?_⟩
      · rintro _ _ ⟨⟩ -
        rfl
      · obtain ⟨reason, hreason⟩ := hbreaks inner part h
        cases hreason
    | unfit given target reason =>
      cases hq : w.quotableOperand given with
      | true =>
        rw [refuseWith_unfit_of_le hdebug hq]
        refine ⟨nofun, ?_, ?_, fun inner part h => ?_⟩
        · rintro _ _ _ _ ⟨⟩
          obtain ⟨inner, hbreak, hname⟩ := Conversion.breaksAt_of_toCells hc
          exact ⟨⟨rfl, rfl, rfl⟩, inner, given, hbreak, rfl, hname⟩
        · rintro _ _ ⟨⟩ hno
          exact absurd rfl (hno _ target reason)
        · obtain ⟨reason', hreason⟩ := hbreaks inner part h
          cases hreason
          refine ⟨fun _ => ⟨_, _, rfl⟩, fun hno => ?_⟩
          cases hq.symm.trans hno
      | false =>
        rw [refuseWith_unwritten hq]
        refine ⟨nofun, nofun, ?_, fun inner part h => ?_⟩
        · rintro _ _ ⟨⟩ -
          rfl
        · obtain ⟨reason', hreason⟩ := hbreaks inner part h
          cases hreason
          refine ⟨fun hyes => ?_, fun _ => rfl⟩
          cases hq.symm.trans hyes

end Convert

namespace View

variable {w : World} {i : Value} {n : Int}

theorem indexText?_integer (hi : i.IsInteger n) (w : World) :
    w.indexText? i = Display.written (Display.isWritten i) (toString n) := by
  have hdigits : w.indexText i = toString n := by
    rcases hi with hc | ⟨t, signed, bytes, ht, hc⟩ <;>
      simp only [World.indexText, hc, World.display, World.displayFrom] <;> rfl
  rw [indexText?, hdigits, displayable, displayableFrom, Display.isWritten]
  rcases hi with hc | ⟨t, signed, bytes, ht, hc⟩ <;> rw [hc] <;> rfl

theorem setIndex_traced (hdebug : w.threshold ≤ Severity.debug.number) (r : Ref .view)
    (hi : i.IsInteger n) (hn : ¬ (0 ≤ n ∧ n < (w.views.get r).length)) (v : Value) :
    setIndex r i v w =
      .error (if Display.isWritten i then .outOfBounds (toString n) ((w.views.get r).length - 1)
          else .host .value)
        { w with log := w.log.push (.writeRejected n (w.views.get r).length) } := by
  have hb : w.inBounds i (w.views.get r).length = .ok false := by
    rw [inBounds_integer w hi, decide_eq_false hn]
  have hlog : logRejected i (w.views.get r).length w =
      .ok () { w with log := w.log.push (.writeRejected n (w.views.get r).length) } := by
    rw [logRejected_eq hi]
    exact logEvent_of_le hdebug
  rw [setIndex_of_out hb, bind_apply_of_ok _ hlog, get_bind_apply, indexText?_integer hi _]
  cases Display.isWritten i <;> rfl

end View

namespace Search

variable {w : World} {array : Ref .array} {kind : SearchKind} {passes : Predicate} {args : List Value}

inductive Traces {α : Type} (w : World) (kind : SearchKind) : EStateM.Result Fault World α → Prop
  | rejected {s : Int} {length : Nat} {u : World} (hs : s < 0)
      (h : w.Records u "jsbridge.search" (.startRejected (functionName kind) s length)) :
      Traces w kind (.error (.outOfBounds (toString s) (length - 1)) u)
  | answered (x : α) : Traces w kind (.ok x w)
  | failed {f : Fault} (h : ∀ index last, f ≠ .outOfBounds index last) : Traces w kind (.error f w)

theorem Traces.records {α : Type} {index : String} {last : Int} {u : World}
    (h : Traces w kind (.error (.outOfBounds index last) u : EStateM.Result Fault World α)) :
    ∃ s length, w.Records u "jsbridge.search" (.startRejected (functionName kind) s length) ∧
      index = toString s ∧ last = length - 1 := by
  generalize hresult :
    (EStateM.Result.error (.outOfBounds index last) u : EStateM.Result Fault World α) = result at h
  cases h with
  | rejected hs h =>
    cases hresult
    exact ⟨_, _, h, rfl, rfl⟩
  | answered x => cases hresult
  | failed h =>
    cases hresult
    exact absurd rfl (h index last)

theorem Traces.host {α : Type} (f : HostFault) :
    Traces w kind (.error (.host f) w : EStateM.Result Fault World α) := by
  refine .failed ?_
  rintro index last ⟨⟩

theorem traces_scanBy (hdebug : w.threshold ≤ Severity.debug.number) (kind : SearchKind)
    (array : Ref .array) (passes : Predicate) (args : List Value) :
    Traces w kind (scanBy kind array passes args w) := by
  cases args with
  | nil =>
    refine .failed ?_
    rintro index last ⟨⟩
  | cons v rest =>
    cases hstart : start w kind (v :: rest) with
    | error f =>
      rw [scanBy_of_error hstart]
      exact .host f
    | ok s =>
      by_cases hs : (w.arrays.get array).shape = []
      · have hscan : scanBy kind array passes (v :: rest) w = .error (.host .type) w := by
          simp only [scanBy, get_bind_apply, hstart, orFail_bind_apply, hs]
          rfl
        rw [hscan]
        exact .host .type
      · by_cases hneg : s < 0
        · rw [scanBy_rejects passes hs hneg hstart, refuse_apply hdebug]
          exact .rejected hneg ⟨rfl, rfl, rfl⟩
        · lift s to Nat using Int.not_lt.mp hneg
          obtain ⟨x, -, hscan⟩ := scanBy_of_nonneg passes hs hstart
          rw [hscan]
          cases x with
          | error f => exact .host f
          | ok found => exact .answered _

theorem Traces.map {α β : Type} {act : Action α} (g : α → β) (h : Traces w kind (act w)) :
    Traces w kind ((act >>= fun a => pure (g a)) w) := by
  generalize hact : act w = result at h
  cases h with
  | rejected hs h =>
    rw [bind_apply_of_error _ hact]
    exact .rejected hs h
  | answered x =>
    rw [bind_apply_of_ok _ hact]
    exact .answered (g x)
  | failed h =>
    rw [bind_apply_of_error _ hact]
    exact .failed h

theorem traces_callBy (hdebug : w.threshold ≤ Severity.debug.number) (kind : SearchKind)
    (array : Ref .array) (passes : Predicate) (args : List Value) :
    Traces w kind (callBy kind array passes args w) := by
  cases kind with
  | bare => exact .answered _
  | indexOf => exact (traces_scanBy hdebug .indexOf array passes args).map _
  | includes => exact (traces_scanBy hdebug .includes array passes args).map _

end Search

/-- With records of level debug, what is refused leaves one record and what is not leaves none. A
conversion names the slot at which it breaks, in the record as in the fault. A write beyond the
bounds converts nothing and leaves its record even if the index has too many digits for a message;
one within them leaves what its conversion leaves. A search leaves a record exactly if it is refused
as out of bounds, and then its start lies before the array. -/
theorem leaves_one_trace {w : World} (hdebug : w.threshold ≤ Severity.debug.number) :
    (∀ truncates slot v, TracesConversion w truncates slot v (convert truncates slot v w)) ∧
    (∀ r i (n : Int), i.IsInteger n → ∀ v,
      (¬ (0 ≤ n ∧ n < (w.views.get r).length) → ∃ u,
        View.setIndex r i v w =
          .error (if Display.isWritten i then .outOfBounds (toString n) ((w.views.get r).length - 1)
            else .host .value) u ∧
        w.Records u "jsbridge.bridge" (.writeRejected n (w.views.get r).length)) ∧
      (0 ≤ n ∧ n < (w.views.get r).length → ∀ f u,
        convert (w.views.get r).truncates (w.views.get r).slot v w = .error f u →
        View.setIndex r i v w = .error f u)) ∧
    (∀ kind array passes args, Search.Traces w kind (Search.callBy kind array passes args w)) ∧
    ∀ f this args kind array test, (w.functions.get f).body = .search kind array test →
      Search.Traces w kind (call f this args w) := by
  refine ⟨tracesConversion hdebug, fun r i n hi v => ⟨fun hn => ?_, fun hn f u hf => ?_⟩,
    Search.traces_callBy hdebug, ?_⟩
  · exact ⟨_, View.setIndex_traced hdebug r hi hn v, rfl, rfl, rfl⟩
  · refine View.setIndex_of_refused ?_ hf
    rw [inBounds_integer w hi, decide_eq_true hn]
  · intro f this args kind array test hbody
    have hcall : call f this args w =
        Search.callBy kind array (Search.passes · test) args w := by
      rw [call, callNesting, callTo, look_bind_apply, hbody]
      rfl
    rw [hcall]
    exact Search.traces_callBy hdebug kind array _ args

def drafts : World := World.empty.afterAll [
  .newPresenter .standard,
  .buildArray (.native (.int true 1)) [2, 2] [],
  .newView .null ⟨1⟩ ⟨0⟩ none false,
  .newList [.int 5, .int 6],
  .newList [.int 7, .text "eight"],
  .newList [.list ⟨0⟩, .list ⟨1⟩],
  .newSearch .indexOf ⟨1⟩ .equal,
  .setThreshold 10]

/-- The word is refused for a single cell, not for the square or its second row. -/
theorem failures_leave_one_trace :
    (∃ u, convert false ⟨.native (.int true 1), [2, 2]⟩ (.list ⟨2⟩) drafts =
        .error (.cannotConvert "'eight'" "int8" "not a finite number") u ∧
      drafts.Records u "jsbridge.coercion"
        (.conversionFailed "'eight'" "int8" "not a finite number")) ∧
    (∃ u, View.setIndex ⟨0⟩ (.int 2) (.list ⟨2⟩) drafts = .error (.outOfBounds "2" 1) u ∧
      drafts.Records u "jsbridge.bridge" (.writeRejected 2 2)) ∧
    ∃ u s length, call ⟨0⟩ .undefined [.list ⟨0⟩, .int (-3)] drafts = .error (.outOfBounds "-1" 1) u ∧
      drafts.Records u "jsbridge.search" (.startRejected "indexOf" s length) := by
  obtain ⟨hconvert, hwrite, -, hsearch⟩ := leaves_one_trace (w := drafts) (by decide)
  have hrefused := (hconvert false ⟨.native (.int true 1), [2, 2]⟩ (.list ⟨2⟩)).refused
  have hfault : (match call ⟨0⟩ .undefined [.list ⟨0⟩, .int (-3)] drafts with
      | .ok _ _ => none
      | .error f _ => some f) = some (.outOfBounds "-1" 1) := by decide +kernel
  refine ⟨⟨_, rfl, (hrefused _ _ _ _ rfl).1⟩,
    (hwrite ⟨0⟩ (.int 2) 2 (.inl rfl) (.list ⟨2⟩)).1 (by decide), ?_⟩
  have htraces := hsearch ⟨0⟩ .undefined [.list ⟨0⟩, .int (-3)] .indexOf ⟨1⟩ .equal rfl
  cases hcall : call ⟨0⟩ .undefined [.list ⟨0⟩, .int (-3)] drafts with
  | ok x u =>
    rw [hcall] at hfault
    cases hfault
  | error f u =>
    rw [hcall] at hfault htraces
    cases hfault
    obtain ⟨s, length, hrecords, -, -⟩ := htraces.records
    exact ⟨u, s, length, rfl, hrecords⟩

end ScriptedArrays
