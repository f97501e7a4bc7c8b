import ScriptedArrays.Proofs.Slices

/-! Concatenations. A concatenation is a new script array of what its values contribute in order: a
view and a script array contribute their items, and any other value contributes itself. What is put
together in two steps is the same to a script as what is put together at once. -/

namespace ScriptedArrays

open World

namespace World

/-- The value contributes its items: it is a view, or a record whose own prototype entry is the
prototype. -/
def IsSpread (w : World) (prototype : Ref .record) : Value → Prop
  | .view _ => True
  | .record r => (w.records.get r).get? protoKey = some (.record prototype)
  | _ => False

/-- On the way from one world to another one a value contributes these values to a concatenation: its
items in order if it is spread, and itself otherwise. -/
inductive Contributes (w : World) (prototype : Ref .record) (w' : World) (v : Value) :
    List Value → Prop
  | items {n : Nat} {xs : List Value} (hs : w.IsSpread prototype v) (hn : Receiver.length v w = .ok n w)
    (hxs : List.Forall₂ (fun x i => w.ReadsAs v i x w') xs (List.range n)) :
    Contributes w prototype w' v xs
  | itself (hs : ¬ w.IsSpread prototype v) : Contributes w prototype w' v [v]

/-- What the value refers to is there, and its length has a number if it is spread. -/
structure Concatenable (w : World) (prototype : Ref .record) (v : Value) : Prop where
  there : w.backs v = true
  length : w.IsSpread prototype v → ∃ n, Receiver.length v w = .ok n w

def Yields (w : World) (prototype : Ref .record) (v : Value) : Prop :=
  w.IsSpread prototype v → ∀ n, Receiver.length v w = .ok n w → ∀ i < n, Succeeds (Receiver.item v i) w

section

variable {w u w' z : World} {prototype : Ref .record} {v : Value}

theorem same_record_iff {p : Value} {r : Ref .record} : w.same p (.record r) = true ↔ p = .record r := by
  cases p <;> simp [World.same, Value.rename, Value.same, Value.isObject]

theorem isSpreadable_iff : w.isSpreadable v (.record prototype) = true ↔ w.IsSpread prototype v := by
  cases v with
  | record r =>
    rw [isSpreadable, IsSpread]
    cases (w.records.get r).get? protoKey with
    | none => simp
    | some p => simp [same_record_iff]
  | _ => simp [isSpreadable, IsSpread]

theorem IsSpread.isArrayLike (hs : w.IsSpread prototype v) (hthere : w.backs v = true) :
    Receiver.IsArrayLike w v := by
  cases v with
  | view q => exact .view (of_decide_eq_true hthere)
  | record r => exact .record r
  | _ => exact hs.elim

theorem isSpread_of_preserves (hthere : w.backs v = true) (hu : w.Preserves u) :
    u.IsSpread prototype v ↔ w.IsSpread prototype v := by
  cases v with
  | record r =>
    have hr : w.records.Has r := of_decide_eq_true hthere
    rw [IsSpread, IsSpread, (hu.record r hr).2]
  | _ => exact Iff.rfl

theorem Contributes.widen {xs : List Value} (h : w.Contributes prototype w' v xs) (hz : w'.Preserves z) :
    w.Contributes prototype z v xs := by
  cases h with
  | items hs hn hxs => exact .items hs hn (hxs.imp fun x i hx => hx.widen (refl_of Preserves w) hz)
  | itself hs => exact .itself hs

theorem Contributes.alike {xs ys : List Value} (hc : w.Closed) (h : w.Sound) (hthere : w.backs v = true)
    (hxs : w.Contributes prototype z v xs) (hys : w.Contributes prototype z v ys) :
    List.Forall₂ (fun x y => z.sight x = z.sight y) xs ys := by
  cases hxs with
  | itself hs =>
    cases hys with
    | itself _ => exact .cons rfl .nil
    | items hs' _ _ => exact absurd hs' hs
  | @items n _ hs hn hxs =>
    cases hys with
    | itself hs' => exact absurd hs hs'
    | items _ hn' hys =>
      rw [hn] at hn'
      cases hn'
      have hthis := hs.isArrayLike hthere
      refine Receiver.sight_items hc h hthis hthere (fun i hi => ?_) hxs hys
      exact Receiver.hasItem_of_length h hthis hn (List.mem_range.mp hi)

theorem Contributes.alike_flatten {vs : List Value} {parts parts' : List (List Value)} (hc : w.Closed)
    (h : w.Sound) (hthere : ∀ v ∈ vs, w.backs v = true)
    (hparts : List.Forall₂ (w.Contributes prototype z) vs parts)
    (hparts' : List.Forall₂ (w.Contributes prototype z) vs parts') :
    List.Forall₂ (fun x y => z.sight x = z.sight y) parts.flatten parts'.flatten := by
  induction hparts generalizing parts' with
  | nil =>
    cases hparts'
    exact .nil
  | @cons v part vs parts hpart _ ih =>
    obtain ⟨part', parts', hpart', hrest, rfl⟩ := List.forall₂_cons_left_iff.mp hparts'
    rw [List.flatten_cons, List.flatten_cons]
    refine List.rel_append (hpart.alike hc h (hthere v List.mem_cons_self) hpart') ?_
    exact ih (fun x hx => hthere x (List.mem_cons_of_mem v hx)) hrest

end
end World

namespace ArrayMethod

section

variable {w u u' : World} {prototype : Ref .record} {v : Value} {vs xs : List Value} (hc : w.Closed)
  (h : w.Sound) (hu : w.Preserves u)
include hc h hu

theorem spread_of_isSpread (hv : w.backs v = true) (hs : w.IsSpread prototype v) {n : Nat}
    (hn : Receiver.length v w = .ok n w) (earlier : List Value) :
    spread prototype earlier v u = Receiver.itemsAt v earlier (List.range n) u := by
  have hlength := Receiver.length_of_preserves hc h (hs.isArrayLike hv) hv hu hn
  have hspreadable := isSpreadable_iff.mpr ((isSpread_of_preserves hv hu).mpr hs)
  rw [spread, get_bind_apply, if_pos hspreadable, bind_apply_of_ok _ hlength, Receiver.items,
    List.range_eq_range']

omit hc h in
theorem spread_of_not (hv : w.backs v = true) (hs : ¬ w.IsSpread prototype v) (earlier : List Value) :
    spread prototype earlier v u = .ok [v] u := by
  have hspreadable : ¬ u.isSpreadable v (.record prototype) = true := by
    rwa [isSpreadable_iff, isSpread_of_preserves hv hu]
  rw [spread, get_bind_apply, if_neg hspreadable]
  rfl

theorem hasItem_of_preserves (hv : w.backs v = true) (hs : w.IsSpread prototype v) {n : Nat}
    (hn : Receiver.length v w = .ok n w) : ∀ i ∈ List.range n, Receiver.HasItem u v i := by
  intro i hi
  have hthis := hs.isArrayLike hv
  exact Receiver.hasItem_of_length (hu.reads h).1 (hthis.of_preserves hu)
    (Receiver.length_of_preserves hc h hthis hv hu hn) (List.mem_range.mp hi)

theorem succeeds_spread_iff (hv : w.Concatenable prototype v) (earlier : List Value) :
    Succeeds (spread prototype earlier v) u ↔ w.Yields prototype v := by
  by_cases hs : w.IsSpread prototype v
  · obtain ⟨n, hn⟩ := hv.length hs
    have hthis := hs.isArrayLike hv.there
    have hitems := hasItem_of_preserves hc h hu hv.there hs hn
    have hread : (∀ i ∈ List.range n, Succeeds (Receiver.item v i) u) ↔
        ∀ i ∈ List.range n, Succeeds (Receiver.item v i) w :=
      forall₂_congr fun i hi => Receiver.succeeds_item_iff_of_preserves hc h hthis hu
        (Receiver.hasItem_of_length h hthis hn (List.mem_range.mp hi))
    rw [Succeeds, spread_of_isSpread hc h hu hv.there hs hn, ← Succeeds,
      Receiver.succeeds_itemsAt_iff (hu.reads h).1 (hthis.of_preserves hu) hitems, hread]
    constructor
    · intro hall _ m hm i hi
      rw [hn] at hm
      cases hm
      exact hall i (List.mem_range.mpr hi)
    · intro hall i hi
      exact hall hs n hn i (List.mem_range.mp hi)
  · exact iff_of_true ⟨[v], u, spread_of_not hu hv.there hs earlier⟩ fun hyes => absurd hyes hs

theorem contributes_of_spread (hv : w.Concatenable prototype v) {earlier : List Value}
    (hxs : spread prototype earlier v u = .ok xs u') :
    u.Preserves u' ∧ w.Contributes prototype u' v xs := by
  by_cases hs : w.IsSpread prototype v
  · obtain ⟨n, hn⟩ := hv.length hs
    rw [spread_of_isSpread hc h hu hv.there hs hn] at hxs
    obtain ⟨hu', hall⟩ := Receiver.itemsAt_ok (hu.reads h).1 ((hs.isArrayLike hv.there).of_preserves hu)
      (hasItem_of_preserves hc h hu hv.there hs hn) hxs
    exact ⟨hu', .items hs hn (hall.imp fun x i hx => hx.widen hu (refl_of Preserves u'))⟩
  · rw [spread_of_not hu hv.there hs] at hxs
    cases hxs
    exact ⟨refl_of Preserves u, .itself hs⟩

theorem contributes_of_spreadAll (hvs : ∀ v ∈ vs, w.Concatenable prototype v) {earlier : List Value}
    (hxs : spreadAll prototype earlier vs u = .ok xs u') :
    u.Preserves u' ∧ ∃ parts, List.Forall₂ (w.Contributes prototype u') vs parts ∧
      xs = earlier ++ parts.flatten := by
  induction vs generalizing u earlier with
  | nil =>
    cases hxs
    exact ⟨refl_of Preserves _, [], .nil, (List.append_nil _).symm⟩
  | cons v vs ih =>
    rw [spreadAll] at hxs
    obtain ⟨part, v', hpart, hrest⟩ := bind_eq_ok.mp hxs
    obtain ⟨hv', hcontributes⟩ := contributes_of_spread hc h hu (hvs v List.mem_cons_self) hpart
    obtain ⟨hu', parts, hparts, rfl⟩ :=
      ih (trans_of Preserves hu hv') (fun x hx => hvs x (List.mem_cons_of_mem v hx)) hrest
    refine ⟨trans_of Preserves hv' hu', part :: parts, .cons (hcontributes.widen hu') hparts, ?_⟩
    rw [List.flatten_cons, List.append_assoc]

theorem succeeds_spreadAll_iff (hvs : ∀ v ∈ vs, w.Concatenable prototype v) (earlier : List Value) :
    Succeeds (spreadAll prototype earlier vs) u ↔ ∀ v ∈ vs, w.Yields prototype v := by
  induction vs generalizing u earlier with
  | nil => exact iff_of_true ⟨earlier, u, rfl⟩ fun v hv => absurd hv List.not_mem_nil
  | cons v vs ih =>
    have hv := hvs v List.mem_cons_self
    have hvs' := fun x hx => hvs x (List.mem_cons_of_mem v hx)
    rw [List.forall_mem_cons, ← succeeds_spread_iff hc h hu hv earlier, spreadAll]
    constructor
    · rintro ⟨xs, u', hxs⟩
      obtain ⟨part, v', hpart, hrest⟩ := bind_eq_ok.mp hxs
      have hv' := trans_of Preserves hu (contributes_of_spread hc h hu hv hpart).1
      exact ⟨⟨part, v', hpart⟩, (ih hv' hvs' _).mp ⟨xs, u', hrest⟩⟩
    · rintro ⟨⟨part, v', hpart⟩, hall⟩
      have hv' := trans_of Preserves hu (contributes_of_spread hc h hu hv hpart).1
      exact succeeds_bind hpart ((ih hv' hvs' _).mpr hall)

end
end ArrayMethod

/-- On the way from one world to another one a new script array of what the values contribute in order
was made, and everything that there was is what it was. -/
structure World.Concatenates (w : World) (prototype : Ref .record) (vs : List Value) (r : Ref .record)
    (w' : World) : Prop where
  fresh : ¬ w.records.Has r
  preserves : w.Preserves w'
  has : w'.records.Has r
  items : ∃ parts, List.Forall₂ (w.Contributes prototype w') vs parts ∧
    (w'.records.get r).IsArray prototype parts.flatten

/-- To a script both records have the same length and the same items: the same values, views of the
same cells and boxes of the same host values. -/
def World.HoldSame (w : World) (q r : Ref .record) : Prop :=
  ∀ n, Receiver.length (.record r) w = .ok n w → Receiver.length (.record q) w = .ok n w ∧
    ∀ i < n, ∃ x y, Receiver.item (.record q) i w = .ok x w ∧ Receiver.item (.record r) i w = .ok y w ∧
      w.sight x = w.sight y

theorem getElem_take_append {α : Type} (as bs : List α) {i n : Nat} (hi : i < n)
    (hcut : i < (as.take n ++ bs).length) (hall : i < (as ++ bs).length) :
    (as.take n ++ bs)[i] = (as ++ bs)[i] := by
  rw [List.getElem_append, List.getElem_append]
  split
  · next hfirst =>
    rw [List.length_take] at hfirst
    rw [dif_pos (by omega), List.getElem_take]
  · next hfirst =>
    rw [List.length_take] at hfirst
    have hshort : as.length ≤ n := by omega
    rw [dif_neg (by omega)]
    simp only [List.take_of_length_le hshort]

namespace Entries.IsArray

variable {w : World} {prototype a : Ref .record} {xs : List Value}

theorem receiver_item (h : (w.records.get a).IsArray prototype xs) {i : Nat} (hi : i < xs.length) :
    ∃ x, Receiver.item (.record a) i w = .ok x w ∧ w.sight x = w.sight xs[i] := by
  obtain ⟨x, hx, hkept⟩ := h.item i hi
  refine ⟨x, ?_, w.sight_congr hkept.content⟩
  rw [Receiver.item, get_bind_apply, Entries.getD, hx]
  rfl

/-- A script array holds the same as one of the same items, even if the first of them were read from
another script array, which is read up to the greatest length. -/
theorem holdSame {q r : Ref .record} {as bs zs : List Value}
    (hq : (w.records.get q).IsArray prototype (as.take greatestLength ++ bs))
    (hr : (w.records.get r).IsArray prototype zs)
    (hsame : List.Forall₂ (fun x y => w.sight x = w.sight y) (as ++ bs) zs) : w.HoldSame q r := by
  intro n hn
  obtain ⟨hlt, rfl⟩ := hr.length_eq_ok_iff.mp hn
  have hlength := hsame.length_eq
  rw [List.length_append] at hlength
  constructor
  · refine hq.length_eq_ok_iff.mpr ?_
    rw [List.length_append, List.length_take]
    omega
  · intro i hi
    have hzs : i < zs.length := by omega
    have hcut : i < (as.take greatestLength ++ bs).length := by
      rw [List.length_append, List.length_take]
      omega
    have hall : i < (as ++ bs).length := by rwa [hsame.length_eq]
    obtain ⟨x, hx, hxs⟩ := hq.receiver_item hcut
    obtain ⟨y, hy, hys⟩ := hr.receiver_item hzs
    refine ⟨x, y, hx, hy, ?_⟩
    rw [hxs, hys, getElem_take_append as bs (by omega) hcut hall]
    exact hsame.get hall hzs

end Entries.IsArray

namespace ArrayMethod

section

variable {w u u' : World} {prototype : Ref .record} {this : Value} {args : List Value} (hc : w.Closed)
  (h : w.Sound) (hu : w.Preserves u)
include hc h hu

theorem succeeds_runConcat_iff (hvs : ∀ v ∈ this :: args, w.Concatenable prototype v) :
    Succeeds (runConcat prototype this args) u ↔ ∀ v ∈ this :: args, w.Yields prototype v := by
  rw [← succeeds_spreadAll_iff hc h hu hvs [], runConcat]
  constructor
  · rintro ⟨v, u', hv⟩
    obtain ⟨xs, z, hxs, -⟩ := bind_eq_ok.mp hv
    exact ⟨xs, z, hxs⟩
  · rintro ⟨xs, z, hxs⟩
    exact succeeds_bind hxs (succeeds_makeArray prototype xs z)

theorem concatenates_of_runConcat (hvs : ∀ v ∈ this :: args, w.Concatenable prototype v) {v : Value}
    (hv : runConcat prototype this args u = .ok v u') :
    ∃ r, v = .record r ∧ u.Preserves u' ∧ w.Concatenates prototype (this :: args) r u' := by
  obtain ⟨xs, z, hxs, hmake⟩ := bind_eq_ok.mp hv
  obtain ⟨hz, parts, hparts, rfl⟩ := contributes_of_spreadAll hc h hu hvs hxs
  obtain ⟨rfl, hu', hhas, harray⟩ := (isNewArray_makeArray prototype _ z).ok hmake
  have hwz : w.Preserves z := trans_of Preserves hu hz
  refine ⟨_, rfl, trans_of Preserves hz hu', fun hr => ?_, trans_of Preserves hwz hu', hhas,
    parts, ?_, harray⟩
  · exact z.records.ne_next_of_has (hwz.record _ hr).1 rfl
  · exact hparts.imp fun v part hpart => hpart.widen hu'

theorem exists_runConcat (hvs : ∀ v ∈ this :: args, w.Concatenable prototype v ∧ w.Yields prototype v) :
    ∃ r u', runConcat prototype this args u = .ok (.record r) u' ∧ u.Preserves u' ∧
      w.Concatenates prototype (this :: args) r u' := by
  obtain ⟨v, u', hv⟩ := (succeeds_runConcat_iff hc h hu fun v hv => (hvs v hv).1).mpr
    fun v hv => (hvs v hv).2
  obtain ⟨r, rfl, hu', hr⟩ := concatenates_of_runConcat hc h hu (fun v hv => (hvs v hv).1) hv
  exact ⟨r, u', hv, hu', hr⟩

theorem exists_concat_record {p : Ref .record} {xs : List Value}
    (hp : (u.records.get p).IsArray prototype xs) (hn : xs.length < Double.bound)
    (hvs : ∀ v ∈ args, w.Concatenable prototype v ∧ w.Yields prototype v) :
    ∃ q u' parts, runConcat prototype (.record p) args u = .ok (.record q) u' ∧ u.Preserves u' ∧
      u'.records.Has q ∧ List.Forall₂ (w.Contributes prototype u') args parts ∧
      (u'.records.get q).IsArray prototype (xs.take greatestLength ++ parts.flatten) := by
  obtain ⟨ys, hys, hkept⟩ := hp.spread hn []
  obtain ⟨zs, v, hzs⟩ := (succeeds_spreadAll_iff hc h hu (fun v hv => (hvs v hv).1) ys).mpr
    fun v hv => (hvs v hv).2
  obtain ⟨hv, parts, hparts, rfl⟩ := contributes_of_spreadAll hc h hu (fun v hv => (hvs v hv).1) hzs
  have hspread : spreadAll prototype [] (.record p :: args) u = .ok (ys ++ parts.flatten) v := by
    rw [spreadAll, bind_apply_of_ok _ hys, List.nil_append, hzs]
  obtain ⟨x, u', hmake⟩ := succeeds_makeArray prototype (ys ++ parts.flatten) v
  obtain ⟨rfl, hu', hhas, harray⟩ := (isNewArray_makeArray prototype _ v).ok hmake
  refine ⟨_, u', parts, ?_, (trans_of Preserves hv hu'), hhas, ?_, ?_⟩
  · rw [runConcat, bind_apply_of_ok _ hspread, hmake]
  · exact hparts.imp fun v part hpart => hpart.widen hu'
  · exact harray.of_kept (List.rel_append hkept (List.forall₂_same.mpr fun x _ => .refl x))

omit hu in
/-- What is put together in two steps is the same to a script as what is put together at once, and the
records are script arrays of as many items unless the first step gave more than are read of it. -/
theorem exists_concat_twice {v : World} {p : Ref .record} {bs cs : List Value}
    (hvs : ∀ x ∈ this :: (bs ++ cs), w.Concatenable prototype x ∧ w.Yields prototype x)
    (hp : w.Concatenates prototype (this :: bs) p v) {k : Nat}
    (hk : Receiver.length (.record p) v = .ok k v) :
    ∃ q r z z', runConcat prototype (.record p) cs v = .ok (.record q) z ∧
      runConcat prototype this (bs ++ cs) z = .ok (.record r) z' ∧ z'.HoldSame q r ∧
      (k < greatestLength → ∃ xs ys, (z'.records.get q).IsArray prototype xs ∧
        (z'.records.get r).IsArray prototype ys ∧
        List.Forall₂ (fun x y => z'.sight x = z'.sight y) xs ys) := by
  obtain ⟨parts, hparts, harray⟩ := hp.items
  obtain ⟨hlt, hk⟩ := harray.length_eq_ok_iff.mp hk
  have hcs : ∀ x ∈ cs, w.Concatenable prototype x ∧ w.Yields prototype x := fun x hx =>
    hvs x (List.mem_cons_of_mem this (List.mem_append_right bs hx))
  obtain ⟨q, z, later, hq, hz, hqhas, hlater, hqarray⟩ :=
    exists_concat_record hc h hp.preserves harray hlt hcs
  have hwz : w.Preserves z := trans_of Preserves hp.preserves hz
  obtain ⟨r, z', hr, hpreserves, hconcat⟩ := exists_runConcat hc h hwz hvs
  have hz' : z.Preserves z' := hpreserves
  obtain ⟨whole, hwhole, hrarray⟩ := hconcat.items
  -- in the last world both of them are what the same values contribute
  rw [← (hz'.record q hqhas).2] at hqarray
  have htogether : List.Forall₂ (w.Contributes prototype z') (this :: bs ++ cs) (parts ++ later) :=
    List.rel_append (hparts.imp fun v part hpart => hpart.widen (trans_of Preserves hz hz'))
      (hlater.imp fun v part hpart => hpart.widen hz')
  have hsame := Contributes.alike_flatten hc h (fun x hx => (hvs x hx).1.there) htogether hwhole
  rw [List.flatten_append] at hsame
  refine ⟨q, r, z, z', hq, hr, hqarray.holdSame hrarray hsame, fun hshort => ?_⟩
  rw [List.take_of_length_le (by omega)] at hqarray
  exact ⟨_, _, hqarray, hrarray, hsame⟩

end

/-- The method `concat` puts values together, one level deep. Where nothing refers to an object that
there is not, let the receiver and the arguments be any values whose lengths have numbers, as far as
they are spread. The concatenation is made exactly if all items of the spread values can be read, and it
is a new script array of what the values contribute in order: a view and a script array the items below
their lengths, and any other value itself; the receiver, the arguments and everything else that there
was stay as they are. To concatenate further values to a concatenation gives the same to a script as to
concatenate all of them at once: the same length and the same items. -/
theorem concat_spec {w : World} (hw : Reachable w) (hc : w.Closed) (call : Caller)
    (prototype : Ref .record) :
    (∀ this args, (∀ v ∈ this :: args, w.Concatenable prototype v) →
      (Succeeds (run call concat prototype this args) w ↔ ∀ v ∈ this :: args, w.Yields prototype v) ∧
      ∀ v w', run call concat prototype this args w = .ok v w' →
        ∃ r, v = .record r ∧ w.Concatenates prototype (this :: args) r w') ∧
    (∀ this bs cs, (∀ v ∈ this :: (bs ++ cs), w.Concatenable prototype v ∧ w.Yields prototype v) →
      ∃ p w₁, run call concat prototype this bs w = .ok (.record p) w₁ ∧
        ∀ k, Receiver.length (.record p) w₁ = .ok k w₁ →
          ∃ q r w₂ w₃, run call concat prototype (.record p) cs w₁ = .ok (.record q) w₂ ∧
            run call concat prototype this (bs ++ cs) w₂ = .ok (.record r) w₃ ∧ w₃.HoldSame q r ∧
            (k < greatestLength → ∃ xs ys, (w₃.records.get q).IsArray prototype xs ∧
              (w₃.records.get r).IsArray prototype ys ∧
              List.Forall₂ (fun x y => w₃.sight x = w₃.sight y) xs ys)) := by
  have h := hw.sound
  have hself : w.Preserves w := refl_of Preserves w
  constructor
  · intro this args hvs
    refine ⟨succeeds_runConcat_iff hc h hself hvs, fun v w' hv => ?_⟩
    obtain ⟨r, rfl, -, hr⟩ := concatenates_of_runConcat hc h hself hvs hv
    exact ⟨r, rfl, hr⟩
  · intro this bs cs hvs
    obtain ⟨p, w₁, hv, -, hp⟩ := exists_runConcat hc h hself fun v hv =>
      hvs v (List.mem_append_left cs hv)
    exact ⟨p, w₁, hv, fun k hk => exists_concat_twice hc h hvs hp hk⟩

def medley : World := World.empty.afterAll [
  .newPresenter .standard,
  .buildArray (.native (.int true 1)) [2] [.int 4, .int 5],
  .newView .null ⟨1⟩ ⟨0⟩ none false,
  .newRecord [],
  .newRecord [(protoKey, .record ⟨0⟩), ("length", .int 2), ("1", .text "reed")],
  .newRecord [("length", .int 1)]]

theorem reachable_medley : Reachable medley := by
  apply Reachable.start.afterAll
  simp [Operation.IsProper, CellType.native, Content.IsProper]

theorem length_medley {v : Value} (hv : v = .view ⟨0⟩ ∨ v = .record ⟨1⟩) :
    Receiver.length v medley = .ok 2 medley := by
  have h := reachable_medley.sound
  have htwo : (Double.ofInt (2 : Nat)).asLength = 2 := Double.asLength_ofInt (by decide)
  rcases hv with rfl | rfl
  · refine (Receiver.length_eq_ok_iff h (.view (by decide))).mpr ⟨Double.ofInt (2 : Nat), ?_, htwo, rfl⟩
    exact numberOf_length medley (by decide +kernel) (by decide)
  · refine (Receiver.length_eq_ok_iff h (.record _)).mpr ⟨Double.ofInt (2 : Nat), ?_, htwo, rfl⟩
    exact numberOf_length medley (by decide +kernel) (by decide)

theorem concatenable_medley : ∀ v ∈ ([.view ⟨0⟩, .record ⟨1⟩, .record ⟨2⟩, .int 7] : List Value),
    medley.Concatenable ⟨0⟩ v ∧ medley.Yields ⟨0⟩ v := by
  have h := reachable_medley.sound
  have hplain : ¬ medley.IsSpread ⟨0⟩ (.record ⟨2⟩) := by rw [← isSpreadable_iff]; decide
  simp only [List.forall_mem_cons, List.not_mem_nil, false_imp_iff, implies_true, and_true]
  refine ⟨⟨⟨by decide, fun _ => ⟨2, length_medley (.inl rfl)⟩⟩, fun _ n hn i hi => ?_⟩,
    ⟨⟨by decide, fun _ => ⟨2, length_medley (.inr rfl)⟩⟩, fun _ _ _ i _ => ⟨_, medley, rfl⟩⟩,
    ⟨⟨by decide, fun hs => absurd hs hplain⟩, fun hs => absurd hs hplain⟩,
    ⟨⟨rfl, False.elim⟩, False.elim⟩⟩
  have hview : medley.views.Has ⟨0⟩ := by decide
  have hlt : i < (medley.shown ⟨0⟩).length := Receiver.hasItem_of_length h (.view hview) hn hi _ rfl
  have hrow : (medley.shown ⟨0⟩).rowShape = [] := by decide +kernel
  have hscalar : (medley.shown ⟨0⟩).type.content.IsScalar := by
    rw [show (medley.shown ⟨0⟩).type = .native (.int true 1) by decide +kernel]
    exact True.intro
  refine (View.succeeds_getIndex_iff h hview (Receiver.isInteger_index i) hlt).mpr (.inr ?_)
  exact presentable_itemValue hscalar (View.accepts_cell h hview hlt hrow).1 medley

theorem length_flatten_medley {w' : World} {parts : List (List Value)}
    (h : List.Forall₂ (medley.Contributes ⟨0⟩ w') [.view ⟨0⟩, .record ⟨1⟩, .record ⟨2⟩] parts) :
    parts.flatten.length = 5 := by
  have htwo : ∀ v xs, v = .view ⟨0⟩ ∨ v = .record ⟨1⟩ → medley.Contributes ⟨0⟩ w' v xs →
      xs.length = 2 := by
    intro v xs hv hxs
    cases hxs with
    | items hs hn hxs =>
      rw [length_medley hv] at hn
      cases hn
      rw [hxs.length_eq, List.length_range]
    | itself hs =>
      refine absurd ?_ hs
      rw [← isSpreadable_iff]
      rcases hv with rfl | rfl <;> decide
  obtain ⟨xs, _, hview, hrest, rfl⟩ := List.forall₂_cons_left_iff.mp h
  obtain ⟨ys, _, hrecord, hlast, rfl⟩ := List.forall₂_cons_left_iff.mp hrest
  obtain ⟨zs, _, hplain, hnone, rfl⟩ := List.forall₂_cons_left_iff.mp hlast
  cases hnone
  have hone : zs.length = 1 := by
    cases hplain with
    | items hs => exact absurd (isSpreadable_iff.mpr hs) (by decide)
    | itself hs => rfl
  simp [htwo _ _ (.inl rfl) hview, htwo _ _ (.inr rfl) hrecord, hone]

/-- The view, the script array and the record that is none make up five items, and it is the same to put
a number and the view after them in a second step. -/
theorem concat_in_two_steps :
    ∃ p w₁, run (fun _ _ _ => pure .undefined) concat ⟨0⟩ (.view ⟨0⟩) [.record ⟨1⟩, .record ⟨2⟩] medley =
        .ok (.record p) w₁ ∧
      medley.Concatenates ⟨0⟩ [.view ⟨0⟩, .record ⟨1⟩, .record ⟨2⟩] p w₁ ∧
      Receiver.length (.record p) w₁ = .ok 5 w₁ ∧
      ∃ q r w₂ w₃, run (fun _ _ _ => pure .undefined) concat ⟨0⟩ (.record p) [.int 7, .view ⟨0⟩] w₁ =
          .ok (.record q) w₂ ∧
        run (fun _ _ _ => pure .undefined) concat ⟨0⟩ (.view ⟨0⟩)
          ([.record ⟨1⟩, .record ⟨2⟩] ++ [.int 7, .view ⟨0⟩]) w₂ = .ok (.record r) w₃ ∧
        w₃.HoldSame q r ∧ ∃ xs ys, (w₃.records.get q).IsArray ⟨0⟩ xs ∧
          (w₃.records.get r).IsArray ⟨0⟩ ys ∧
          List.Forall₂ (fun x y => w₃.sight x = w₃.sight y) xs ys := by
  have hclosed : medley.Closed := by constructor <;> decide +kernel
  have hall : ∀ v ∈ ([.view ⟨0⟩, .record ⟨1⟩, .record ⟨2⟩, .int 7, .view ⟨0⟩] : List Value),
      v ∈ ([.view ⟨0⟩, .record ⟨1⟩, .record ⟨2⟩, .int 7] : List Value) := by decide
  obtain ⟨honce, htwice⟩ :=
    concat_spec reachable_medley hclosed (fun _ _ _ => pure .undefined) ⟨0⟩
  obtain ⟨p, w₁, hp, hsteps⟩ := htwice (.view ⟨0⟩) [.record ⟨1⟩, .record ⟨2⟩] [.int 7, .view ⟨0⟩]
    fun v hv => concatenable_medley v (hall v hv)
  obtain ⟨-, hends⟩ := honce (.view ⟨0⟩) [.record ⟨1⟩, .record ⟨2⟩]
    fun v hv => (concatenable_medley v (hall v (List.mem_append_left _ hv))).1
  obtain ⟨r, hr, hconcat⟩ := hends _ w₁ hp
  obtain rfl := Value.record.inj hr
  obtain ⟨parts, hparts, harray⟩ := hconcat.items
  have hfive := length_flatten_medley hparts
  have hlength : Receiver.length (.record p) w₁ = .ok 5 w₁ := by
    rw [← hfive]
    exact harray.receiver_length (by rw [hfive]; decide)
  obtain ⟨q, r, w₂, w₃, hq, hr, hsame, hitems⟩ := hsteps 5 hlength
  exact ⟨p, w₁, hp, hconcat, hlength, q, r, w₂, w₃, hq, hr, hsame, hitems (by decide)⟩

end ArrayMethod
end ScriptedArrays
