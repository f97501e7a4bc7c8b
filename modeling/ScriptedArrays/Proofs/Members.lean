import ScriptedArrays.Proofs.HostActions

/-! Members that are read. What is presented is a value as scripts get them. A member of an array is
always read as something, and so is a member of what a box holds, unless it is an array without axes
that holds itself. -/

namespace ScriptedArrays

open World

def Value.IsBasic : Value → Prop
  | .bool _ | .int _ | .number _ | .text _ => True
  | _ => False

inductive Value.IsForScripts : Value → Prop
  | null : IsForScripts .null
  | basic {x : Value} (hx : x.content.IsBasic) : IsForScripts x
  | view (q : Ref .view) : IsForScripts (.view q)
  | box (b : Ref .box) : IsForScripts (.box b)

theorem Value.IsForScripts.ne {x : Value} (h : x.IsForScripts) : x ≠ .undefined ∧ x ≠ .missing := by
  cases h with
  | basic hx =>
    constructor
    · rintro rfl
      exact hx
    · rintro rfl
      exact hx
  | _ => exact ⟨Value.noConfusion, Value.noConfusion⟩

theorem isObject_of_keep {v x : Value} {w w' : World} (h : keep v w = .ok x w') :
    x.isObject = true := by
  by_cases ho : v.isObject = true
  · simp only [keep, modifyGet, MonadStateOf.modifyGet, EStateM.modifyGet, if_pos ho] at h
    cases h
    exact ho
  · simp only [keep, modifyGet, MonadStateOf.modifyGet, EStateM.modifyGet, if_neg ho] at h
    cases h
    rfl

theorem isForScripts_of_keep {v x : Value} {w w' : World} (hv : v.content.IsBasic)
    (h : keep v w = .ok x w') : x.IsForScripts := by
  obtain ⟨y, n, hy, hc, -⟩ := keep_eq v w
  rw [hy] at h
  cases h
  exact .basic (hc ▸ hv)

namespace Presenter

variable {w : World} {p : Ref .presenter} {scope v : Value}

/-- Whatever is presented, scripts get a value as they get them, and as an object of its own. -/
theorem isForScripts_of_presentFrom {x : Value} {fuel : Nat} {w' : World}
    (h : presentFrom p scope fuel v w = .ok x w') : x.IsForScripts ∧ x.isObject = true := by
  induction fuel generalizing v with
  | zero => cases h
  | succ fuel ih =>
    rw [presentFrom] at h
    dsimp only at h
    cases hc : v.opened.content with
    | null =>
      rw [hc] at h
      cases h
      exact ⟨.null, rfl⟩
    | array r =>
      rw [hc] at h
      dsimp only at h
      rw [get_bind_apply] at h
      split at h
      · exact ih h
      · obtain ⟨q, u, -, h⟩ := bind_eq_ok.mp h
        cases h
        exact ⟨.view q, rfl⟩
    | bytes b =>
      rw [hc] at h
      exact ⟨isForScripts_of_keep (v := .text (Latin.decode b)) True.intro h, isObject_of_keep h⟩
    | bool _ | int _ | number _ | text _ =>
      rw [hc] at h
      exact ⟨isForScripts_of_keep (by rw [hc]; exact True.intro) h, isObject_of_keep h⟩
    | view q =>
      rw [hc] at h
      cases h
      exact ⟨.view q, rfl⟩
    | box b =>
      rw [hc] at h
      cases h
      exact ⟨.box b, rfl⟩
    | _ =>
      rw [hc] at h
      obtain ⟨b, u, -, h⟩ := bind_eq_ok.mp h
      cases h
      exact ⟨.box b, rfl⟩

theorem ne_of_presentFrom {x : Value} {fuel : Nat} {w' : World}
    (h : presentFrom p scope fuel v w = .ok x w') : x ≠ .undefined ∧ x ≠ .missing :=
  (isForScripts_of_presentFrom h).1.ne

theorem presentFrom_of_not_presentable (fuel : Nat) (h : ¬ w.Presentable v) :
    presentFrom p scope fuel v w = .error (.host .recursion) w := by
  induction fuel generalizing v with
  | zero => rfl
  | succ fuel ih =>
    cases hc : w.onlyCell? v with
    | none => exact absurd (presentable_of_onlyCell? hc) h
    | some x =>
      have hx : ¬ w.Presentable x := by
        rintro ⟨n, hn⟩
        exact h ⟨n + 1, .there hc hn⟩
      rw [presentFrom_of_some hc]
      exact ih hx

end Presenter

theorem newTuple_eq (vs : List Value) (w : World) : ∃ r w', newTuple vs w = .ok (.tuple r) w' := by
  simp only [newTuple]
  split
  · exact ⟨_, w, rfl⟩
  · obtain ⟨xs, n, hxs, -⟩ := mapM_keep_eq vs w
    rw [bind_apply_of_ok _ hxs]
    exact ⟨_, _, rfl⟩

section Members

variable {w : World} {owner : Value} {name : String} {p : Ref .presenter} {scope : Value}

/-- A member that can be presented is read as something. -/
theorem presentMember_of_readable (h : w.Sound) (hm : (w.member? owner name).isSome = true)
    (hr : w.Readable owner name) : ∃ x w', presentMember owner name p scope w = .ok x w' ∧
      x ≠ .undefined ∧ x ≠ .missing := by
  have hpresent : ∀ (u : World) v, u.Sound → u.Presentable v →
      ∃ x w', Presenter.present p v scope u = .ok x w' ∧ x ≠ .undefined ∧ x ≠ .missing := by
    intro u v hu hv
    obtain ⟨x, w', hx⟩ := Presenter.succeeds_present hu p scope hv
    refine ⟨x, w', hx, ?_⟩
    rw [Presenter.present, get_bind_apply] at hx
    exact Presenter.ne_of_presentFrom hx
  rw [presentMember, get_bind_apply]
  cases hc : w.member? owner name with
  | none =>
    rw [hc] at hm
    cases hm
  | some m =>
    cases m with
    | method => exact ⟨.function _, _, rfl, Value.noConfusion, Value.noConfusion⟩
    | value v => exact hpresent w v h (hr v hc)
    | tuple vs =>
      have hlead : Keeps Leads (newTuple vs) := keeps_newTuple vs
      obtain ⟨r, u, hu⟩ := newTuple_eq vs w
      have hsound : u.Sound := after_of_ok hu ▸ (hlead w h).1
      obtain ⟨x, w', hx, hne⟩ := hpresent u (.tuple r) hsound (presentable_of_onlyCell? rfl)
      refine ⟨x, w', ?_, hne⟩
      show (newTuple vs >>= fun v => Presenter.present p v scope) w = _
      rw [bind_apply_of_ok _ hu]
      exact hx

theorem presentMember_of_not_readable (hr : ¬ w.Readable owner name) :
    presentMember owner name p scope w = .error (.host .recursion) w := by
  obtain ⟨v, hv, hno⟩ : ∃ v, w.member? owner name = some (.value v) ∧ ¬ w.Presentable v := by
    simpa [Readable] using hr
  rw [presentMember, get_bind_apply, hv]
  show Presenter.present p v scope w = _
  rw [Presenter.present, get_bind_apply]
  exact Presenter.presentFrom_of_not_presentable _ hno

end Members

namespace View

variable {w : World} {q : Ref .view} {name : String} (has : Value → String → Action Bool)

theorem exposes_of_hasOwn (ho : hasOwn w q name = true) (hn : name ∉ viewMembers) :
    (w.member? (.array (w.views.get q).array) name).isSome = true := by
  have hexposes : w.exposes (w.views.get q).exposed (.array (w.views.get q).array) name = true := by
    simpa [hasOwn, hn] using ho
  simp only [exposes, Bool.and_eq_true] at hexposes
  exact hexposes.2

theorem ownBy_of_exposed (ho : hasOwn w q name = true) (hn : name ∉ viewMembers) :
    ownBy has q name w = presentMember (.array (w.views.get q).array) name (w.views.get q).presenter
      (w.views.get q).scope w := by
  rw [ownBy, get_bind_apply]
  split
  · exact absurd (by decide) hn
  · exact absurd (by decide) hn
  · exact absurd (by decide) hn
  · rw [if_pos ho]

/-- The members of arrays are types, numbers and methods. -/
theorem readable_array (w : World) (r : Ref .array) (name : String) :
    w.Readable (.array r) name := by
  intro v hv
  refine presentable_of_onlyCell? ?_
  simp only [member?] at hv
  simp only [Value.content] at hv
  split at hv
  · cases hv
    simp only [Value.heldBy]
    split
    · rfl
    · rfl
  · unfold HostMember.described? HostMember.named at hv
    split at hv
    · exact absurd rfl ‹_›
    · cases hv
    · cases hv
      rfl
    · cases hv
      rfl
    · cases hv
      rfl
    · cases hv
      rfl
    · split at hv
      · cases hv
      · cases hv

theorem heldBy_int (i : Int) (owner : Value) (name : String) :
    ((Value.int i).heldBy owner name).content = .int i ∧
      (Value.int i).heldBy owner name ≠ .undefined ∧ (Value.int i).heldBy owner name ≠ .missing := by
  simp only [Value.heldBy]
  split
  · exact ⟨rfl, nofun, nofun⟩
  · exact ⟨rfl, nofun, nofun⟩

theorem ownBy_of_hasOwn (h : w.Sound) (ho : hasOwn w q name = true) :
    ∃ x w', ownBy has q name w = .ok x w' ∧ x ≠ .undefined ∧ x ≠ .missing := by
  rw [ownBy, get_bind_apply]
  split
  · exact ⟨_, w, rfl, (heldBy_int _ _ _).2⟩
  · exact ⟨.function _, _, rfl, Value.noConfusion, Value.noConfusion⟩
  · exact ⟨.function _, _, rfl, Value.noConfusion, Value.noConfusion⟩
  · rename_i h₁ h₂ h₃
    have hn : name ∉ viewMembers := by
      simp only [viewMembers, List.mem_cons, List.not_mem_nil, or_false]
      rintro (rfl | rfl | rfl)
      · exact h₁ rfl
      · exact h₂ rfl
      · exact h₃ rfl
    rw [if_pos ho]
    exact presentMember_of_readable h (exposes_of_hasOwn ho hn) (readable_array w _ name)

theorem ownBy_of_not_hasOwn (ho : hasOwn w q name = false) :
    ownBy has q name w = (findPrototype q >>= fun p => has p name >>= fun b =>
      if b then pure .missing
      else fail (.noSuchMember (w.typeName (.array (w.views.get q).array)) name)) w := by
  have hn : name ∉ viewMembers := by
    intro hn
    simp [hasOwn, hn] at ho
  rw [ownBy, get_bind_apply]
  split
  · exact absurd (by decide) hn
  · exact absurd (by decide) hn
  · exact absurd (by decide) hn
  · rw [ho]
    rfl

end View

theorem Box.own_of_hasOwn {w : World} (h : w.Sound) {b : Ref .box} {name : String}
    (ho : Box.hasOwn w b name = true) (hr : w.Readable (w.boxes.get b).value name) :
    ∃ x w', Box.own b name w = .ok x w' ∧ x ≠ .undefined ∧ x ≠ .missing := by
  have hm : (w.member? (w.boxes.get b).value name).isSome = true := by
    simp only [hasOwn, exposes, Bool.and_eq_true] at ho
    exact ho.2
  rw [own, get_bind_apply]
  rw [if_pos ho]
  exact presentMember_of_readable h hm hr

theorem Box.own_of_not_readable {w : World} {b : Ref .box} {name : String}
    (ho : Box.hasOwn w b name = true) (hr : ¬ w.Readable (w.boxes.get b).value name) :
    Box.own b name w = .error (.host .recursion) w := by
  rw [own, get_bind_apply]
  rw [if_pos ho]
  exact presentMember_of_not_readable hr

theorem Box.own_of_not_hasOwn {w : World} {b : Ref .box} {name : String}
    (ho : Box.hasOwn w b name = false) : Box.own b name w = .ok .missing w := by
  rw [own, get_bind_apply]
  rw [ho]
  rfl

end ScriptedArrays
