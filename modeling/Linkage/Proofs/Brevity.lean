import Linkage.Proofs.Writing
import Linkage.Value.Text
import Mathlib.Algebra.Group.Action.Defs
import Mathlib.Algebra.Order.BigOperators.Group.List
import Mathlib.Data.Nat.Digits.Defs

/-!
# Linkage.Proofs.Brevity — how long compact texts get

The compact text of data is cut to a length unless the data is a list or a tuple.  Those show their first elements, each
at the limits that hold inside, and are not cut themselves.  So the length that is asked for has no part in them: what
bounds their texts is how deep they are nested (`layers`), by a factor of four for every layer
(`length_compact_le`), and texts grow as fast as that (`length_compact_bush`), until they are too deep to be written.

Main statements: `written_bounded`, and `written_exceeds` for what is not so.
-/

namespace Linkage

/-! ### Lengths of texts that are put together -/

namespace Text

theorem length_intercalate (separator : String) (texts : List String) : (separator.intercalate texts).length =
    (texts.map String.length).sum + separator.length * (texts.length - 1) := by
  induction texts with
  | nil => rfl
  | cons t rest ih =>
    cases rest with
    | nil => simp
    | cons u rest =>
      rw [String.intercalate_cons_cons, String.length_append, String.length_append, ih]
      simp only [List.map_cons, List.sum_cons, List.length_cons, Nat.add_sub_cancel]
      ring

theorem length_enclosed (left right : String) (texts : List String) : (enclosed left right texts).length =
    left.length + ((texts.map String.length).sum + 2 * (texts.length - 1)) + right.length := by
  unfold enclosed
  rw [String.length_append, String.length_append, length_intercalate]
  rfl

theorem firstOf_natCast {β : Type} (limit : Nat) (xs : List β) : firstOf (limit : Int) xs = xs.take limit := by
  unfold firstOf
  rw [if_neg (Int.not_lt.mpr (Int.natCast_nonneg limit)), Int.toNat_natCast]

theorem truncate_of_le {limit : Nat} {s : String} (h : s.length ≤ limit) : truncate limit s = s :=
  if_neg (by omega)

/-- A text that is cut has the length that was asked for and that of the mark behind it. -/
theorem length_truncate_of_lt {limit : Nat} {s : String} (h : limit < s.length) :
    (truncate limit s).length = limit + 15 := by
  unfold truncate
  rw [if_pos (Int.ofNat_lt.mpr h), firstOf_natCast, String.length_append, String.length_ofList, List.length_take,
    Nat.min_eq_left (by rw [String.length_toList]; exact h.le)]
  rfl

theorem length_truncate_le (limit : Nat) (s : String) : (truncate limit s).length ≤ limit + 15 := by
  rcases Nat.lt_or_ge limit s.length with h | h
  · exact (length_truncate_of_lt h).le
  · rw [truncate_of_le h]
    exact h.trans (Nat.le_add_right ..)

end Text

namespace Value

/-! ### Data -/

section Data

variable {α : Type}

/-- Numbers, texts, nothing, and collections of data. -/
inductive Plain : Value α → Prop where
  | nothing : Plain .nothing
  | flag (b : Bool) : Plain (.flag b)
  | int (n : Int) : Plain (.int n)
  | float (x : α) : Plain (.float x)
  | text (s : String) : Plain (.text s)
  | list {items : List (Value α)} (h : ∀ v ∈ items, v.Plain) : Plain (.list items)
  | tuple {items : List (Value α)} (h : ∀ v ∈ items, v.Plain) : Plain (.tuple items)
  | set {items : List (Value α)} (h : ∀ v ∈ items, v.Plain) : Plain (.set items)
  | dict {entries : List (Value α × Value α)} (hkeys : ∀ e ∈ entries, e.1.Plain) (hvalues : ∀ e ∈ entries, e.2.Plain) :
    Plain (.dict entries)

mutual

/-- The most elements of a list or a tuple in the layers of a value. -/
def crowd : Value α → Nat
  | .list items | .tuple items => max items.length (crowdAll items)
  | _ => 0

/-- The most elements of a list or a tuple in the layers of some values. -/
def crowdAll : List (Value α) → Nat
  | [] => 0
  | v :: rest => max (crowd v) (crowdAll rest)

end

theorem crowd_le_crowdAll {items : List (Value α)} {v : Value α} (h : v ∈ items) : v.crowd ≤ crowdAll items := by
  induction items with
  | nil => exact absurd h List.not_mem_nil
  | cons u rest ih =>
    rw [crowdAll]
    rcases List.mem_cons.mp h with rfl | h
    · exact Nat.le_max_left ..
    · exact (ih h).trans (Nat.le_max_right ..)

end Data

/-! ### The layers of a compact text -/

theorem compactAll_eq_map (items : List (Value Float)) : compactAll items = items.map shown := by
  induction items with
  | nil => rfl
  | cons v rest ih =>
    rw [compactAll, ih]
    rfl

/-- Data that is no list and no tuple is written briefly and cut. -/
theorem Plain.compact_of_layers_eq_zero {v : Value Float} (hv : v.Plain) (h : v.layers = 0) (maxItems maxLength : Int) :
    compact maxItems maxLength v = Text.truncate maxLength (brief limits.depth v) := by
  cases hv with
  | list _ => exact absurd h (Nat.succ_ne_zero _)
  | tuple _ => exact absurd h (Nat.succ_ne_zero _)
  | _ => rfl

/-- A list or a tuple is written by its first elements between brackets, whatever length is asked for. -/
theorem compact_of_layers_ne_zero {v : Value Float} (h : v.layers ≠ 0) : ∃ items left right,
    String.length left = 1 ∧ String.length right = 1 ∧ v.layers = layersAll items + 1 ∧
      v.crowd = max items.length (crowdAll items) ∧ (v.Plain → ∀ u ∈ items, u.Plain) ∧
      ∀ maxItems maxLength, compact maxItems maxLength v =
        Text.enclosed left right (compactItems maxItems (items.map shown)) := by
  cases v with
  | list items =>
    refine ⟨items, "[", "]", rfl, rfl, rfl, rfl, fun hv => ?_, fun maxItems maxLength => ?_⟩
    · cases hv with
      | list hitems => exact hitems
    · rw [compact, compactAll_eq_map]
  | tuple items =>
    refine ⟨items, "(", ")", rfl, rfl, rfl, rfl, fun hv => ?_, fun maxItems maxLength => ?_⟩
    · cases hv with
      | tuple hitems => exact hitems
    · rw [compact, compactAll_eq_map]
  | _ => exact absurd rfl h

/-- The note on how many elements there are. -/
theorem length_note_le {count digits : Nat} (hpos : 0 < digits) (h : count < 10 ^ digits) :
    ("... (" ++ toString count ++ " items)").length ≤ 12 + digits := by
  have hcount : (toString count).length ≤ digits := Nat.repr_length count digits hpos h
  rw [String.length_append, String.length_append]
  have hends : "... (".length = 5 ∧ " items)".length = 7 := ⟨rfl, rfl⟩
  omega

theorem sum_length_le {texts : List String} {most : Nat} (h : ∀ t ∈ texts, t.length ≤ most) :
    (texts.map String.length).sum ≤ texts.length * most := by
  have hsum := List.sum_le_card_nsmul (texts.map String.length) most fun n hn => by
    obtain ⟨t, ht, rfl⟩ := List.mem_map.mp hn
    exact h t ht
  rwa [List.length_map, smul_eq_mul] at hsum

/-- One layer: the elements that are shown with what stands between them, the note, and the brackets. -/
theorem length_layer_le (limit : Nat) {left right : String} (hleft : left.length = 1) (hright : right.length = 1)
    {texts : List String} {most digits : Nat} (htexts : ∀ t ∈ texts, t.length ≤ most) (hpos : 0 < digits)
    (hcount : texts.length < 10 ^ digits) :
    (Text.enclosed left right (compactItems limit texts)).length ≤ limit * (most + 2) + 14 + digits := by
  have hfront : ((texts.take limit).map String.length).sum ≤ (texts.take limit).length * most :=
    sum_length_le fun t ht => htexts t (List.mem_of_mem_take ht)
  rw [Text.length_enclosed, hleft, hright, compactItems, Text.firstOf_natCast]
  rcases Nat.lt_or_ge limit texts.length with hmore | hall
  · have hnote := length_note_le hpos hcount
    rw [if_pos (Int.ofNat_lt.mpr hmore), List.map_append, List.sum_append, List.length_append, List.map_singleton,
      List.sum_singleton, List.length_singleton, Nat.add_sub_cancel]
    rw [List.length_take, Nat.min_eq_left hmore.le] at hfront ⊢
    rw [Nat.mul_add]
    omega
  · rw [if_neg (by omega), List.append_nil]
    rw [List.take_of_length_le hall] at hfront ⊢
    have hwider : texts.length * most ≤ limit * most := Nat.mul_le_mul_right most hall
    rw [Nat.mul_add]
    omega

/-- The text of a list or a tuple, where every element has a text that is bounded by its layers. -/
theorem length_compact_le_of_elements {v : Value Float} (hv : v.Plain) {depth digits : Nat} (hlayers : v.layers = depth + 1)
    (hpos : 0 < digits) (hcrowd : v.crowd < 10 ^ digits)
    (helements : ∀ u : Value Float, u.Plain → u.layers ≤ depth → u.crowd < 10 ^ digits →
      u.shown.length + (22 + digits) ≤ 4 ^ u.layers * (337 + digits)) (limit : Nat) (maxLength : Int) :
    (compact limit maxLength v).length ≤ limit * (4 ^ depth * (337 + digits) - (20 + digits)) + 14 + digits := by
  obtain ⟨items, left, right, hleft, hright, hinside, hcrowded, hplain, hcompact⟩ :=
    compact_of_layers_ne_zero (v := v) (by omega)
  obtain rfl : depth = layersAll items := by omega
  rw [hcrowded, Nat.max_lt] at hcrowd
  have htexts : ∀ t ∈ items.map shown, t.length ≤ 4 ^ layersAll items * (337 + digits) - (22 + digits) := by
    intro t ht
    obtain ⟨u, hu, rfl⟩ := List.mem_map.mp ht
    have hlength := helements u (hplain hv u hu) (layers_le_layersAll hu) ((crowd_le_crowdAll hu).trans_lt hcrowd.2)
    have hgrows := Nat.mul_le_mul_right (337 + digits)
      (Nat.pow_le_pow_right (by decide : 0 < 4) (layers_le_layersAll hu))
    omega
  have hcount : (items.map shown).length < 10 ^ digits := by
    rw [List.length_map]
    exact hcrowd.1
  -- without this the subtractions below could cut off at zero
  have hroom : 337 + digits ≤ 4 ^ layersAll items * (337 + digits) :=
    Nat.le_mul_of_pos_left _ (Nat.pow_pos (by decide))
  rw [hcompact, show 4 ^ layersAll items * (337 + digits) - (20 + digits) =
    4 ^ layersAll items * (337 + digits) - (22 + digits) + 2 by omega]
  exact length_layer_le limit hleft hright htexts hpos hcount

/-- Inside a collection, a text grows by a factor of four at most with every layer. -/
theorem length_shown_add_le {v : Value Float} (hv : v.Plain) {digits : Nat} (hpos : 0 < digits)
    (hcrowd : v.crowd < 10 ^ digits) : v.shown.length + (22 + digits) ≤ 4 ^ v.layers * (337 + digits) := by
  -- on the layers: the elements of a list have fewer of them, and nothing else is needed of how it is built
  induction hlayers : v.layers using Nat.strong_induction_on generalizing v with
  | _ d ih =>
  cases d with
  | zero =>
    -- a text that is cut has 315 characters at most, which leaves 22 for what a layer adds
    have hcut := Text.length_truncate_le 300 (brief limits.depth v)
    rw [shown, hv.compact_of_layers_eq_zero hlayers, show (shownLength : Int) = (300 : Nat) from rfl]
    omega
  | succ depth =>
    have hlength := length_compact_le_of_elements hv hlayers hpos hcrowd
      (fun u hu hless hfew => ih u.layers (Nat.lt_succ_of_le hless) hu hfew rfl) 4 shownLength
    have hroom : 337 + digits ≤ 4 ^ depth * (337 + digits) := Nat.le_mul_of_pos_left _ (Nat.pow_pos (by decide))
    have hfour : 4 ^ (depth + 1) * (337 + digits) = 4 * (4 ^ depth * (337 + digits)) := by ring
    rw [shown, show (shownItems : Int) = (4 : Nat) from rfl, hfour]
    omega

/-- So it is with a list or a tuple at any number of elements to be shown. -/
theorem length_compact_le {v : Value Float} (hv : v.Plain) {depth digits : Nat} (hlayers : v.layers = depth + 1)
    (hpos : 0 < digits) (hcrowd : v.crowd < 10 ^ digits) (limit : Nat) (maxLength : Int) :
    (compact limit maxLength v).length ≤ limit * (4 ^ depth * (337 + digits)) + 14 + digits :=
  (length_compact_le_of_elements hv hlayers hpos hcrowd (fun _ hu _ hfew => length_shown_add_le hu hpos hfew) limit
    maxLength).trans (Nat.add_le_add_right (Nat.add_le_add_right (Nat.mul_le_mul_left limit (Nat.sub_le ..)) 14) digits)

/-! ### Texts of any length -/

/-- Lists of four, nested, with nothing in the innermost. -/
def bush {α : Type} : Nat → Value α
  | 0 => .nothing
  | depth + 1 => .list (List.replicate 4 (bush depth))

theorem plain_bush {α : Type} (depth : Nat) : (bush depth : Value α).Plain := by
  induction depth with
  | zero => exact .nothing
  | succ depth ih => exact .list fun v hv => (List.eq_of_mem_replicate hv).symm ▸ ih

theorem layers_bush {α : Type} (depth : Nat) : (bush depth : Value α).layers = depth := by
  induction depth with
  | zero => rfl
  | succ depth ih =>
    rw [bush, layers]
    simp only [List.replicate, layersAll, ih, max_self, Nat.max_zero]

theorem short_bush {α : Type} [Scalar α] (depth : Nat) : (bush depth : Value α).isOverlong = false := by
  induction depth with
  | zero => rfl
  | succ depth ih =>
    rw [bush, isOverlong, anyOverlong_eq_any, List.any_replicate, ih]
    rfl

theorem crowd_bush {α : Type} (depth : Nat) : (bush depth : Value α).crowd ≤ 4 := by
  induction depth with
  | zero => exact Nat.zero_le 4
  | succ depth ih =>
    rw [bush, crowd, List.length_replicate]
    refine max_le le_rfl ?_
    simp only [List.replicate, crowdAll, max_le_iff]
    exact ⟨ih, ih, ih, ih, Nat.zero_le 4⟩

theorem length_brackets : "[".length = 1 ∧ "]".length = 1 := ⟨rfl, rfl⟩

/-- The texts of nested lists of four are more than four times as long with every layer. -/
theorem length_shown_bush (depth : Nat) : 3 * (bush depth : Value Float).shown.length + 8 = 20 * 4 ^ depth := by
  induction depth with
  | zero => decide
  | succ depth ih =>
    have htext : (bush (depth + 1) : Value Float).shown =
        Text.enclosed "[" "]" (List.replicate 4 (bush depth : Value Float).shown) := by
      rw [bush, shown, compact, compactAll_eq_map, List.map_replicate]
      rfl
    have hbrackets := length_brackets
    rw [htext, Text.length_enclosed, List.map_replicate, List.sum_replicate, smul_eq_mul, List.length_replicate,
      Nat.pow_succ]
    omega

/-- A list that holds nothing but a bush shows it, if it shows anything. -/
theorem length_compact_bush {maxItems : Nat} (h : 1 ≤ maxItems) (maxLength : Int) (depth : Nat) :
    4 ^ (depth + 1) < (compact maxItems maxLength (.list [bush depth])).length := by
  have htake : [(bush depth : Value Float).shown].take maxItems = [(bush depth : Value Float).shown] :=
    List.take_of_length_le h
  have hdeep := length_shown_bush depth
  have hpos : 0 < 4 ^ depth := Nat.pow_pos (by decide)
  have hbrackets := length_brackets
  rw [compact, compactAll_eq_map, List.map_singleton, compactItems, Text.firstOf_natCast, htake,
    if_neg (by rw [List.length_singleton]; omega), List.append_nil, Text.length_enclosed, List.map_singleton,
    List.sum_singleton, Nat.pow_succ]
  omega

/-! ### What bounds compact texts -/

variable {room : Nat} {maxItems maxLength : Int} {v : Value Float}

theorem written_eq_ok_iff {s : String} : written room maxItems maxLength v = .ok s ↔
    v.refusal? maxItems room = none ∧ s = compact maxItems maxLength v := by
  unfold written
  cases v.refusal? maxItems room with
  | none => exact ⟨fun h => ⟨rfl, (Except.ok.inj h).symm⟩, fun h => congrArg Except.ok h.2.symm⟩
  | some fault => exact ⟨nofun, fun h => nomatch h.1⟩

theorem written_eq_error_iff {fault : Fault Float} :
    written room maxItems maxLength v = .error fault ↔ v.refusal? maxItems room = some fault := by
  unfold written
  cases v.refusal? maxItems room with
  | none => exact ⟨nofun, nofun⟩
  | some fault' => exact ⟨fun h => congrArg some (Except.error.inj h), fun h => congrArg Except.error (Option.some.inj h)⟩

/-- Data has a compact text unless there is an integer of too many digits in it or it has more layers than there is room
for.  The text of data that is no list and no tuple has at most the length that is asked for and that of the mark of a
cut.  That of a list or a tuple takes no notice of the length that is asked for: it is bounded by the number of elements
to be shown and by four to the number of the layers inside, and no bound without the layers holds. -/
theorem written_bounded (v : Value Float) (hv : v.Plain) (room maxItems maxLength : Nat) :
    (v.isOverlong = false → v.layers ≤ room + 1 → ∃ s, written room maxItems maxLength v = .ok s) ∧
    (∀ fault, written room maxItems maxLength v = .error fault →
      fault = .integerTooLong ∧ v.isOverlong = true ∨ fault = .nestedTooDeep ∧ room + 1 < v.layers) ∧
    (∀ s, written room maxItems maxLength v = .ok s →
      (v.layers = 0 → s.length ≤ maxLength + 15) ∧
      ∀ depth, v.layers = depth + 1 →
        (∀ length : Int, written room maxItems length v = .ok s) ∧
        s.length ≤ maxItems * (4 ^ depth * (337 + (toString v.crowd).length)) + 14 + (toString v.crowd).length) ∧
    (1 ≤ maxItems → ∀ depth ≤ room, ∃ (u : Value Float) (s : String), u.Plain ∧ u.layers = depth + 1 ∧ u.crowd ≤ 4 ∧
      written room maxItems maxLength u = .ok s ∧ 4 ^ (depth + 1) < s.length) := by
  refine ⟨fun hshort hlayers => ⟨_, written_eq_ok_iff.mpr ⟨refusal?_eq_none hshort hlayers, rfl⟩⟩,
    fun fault hfault => of_refusal? (written_eq_error_iff.mp hfault), fun s hs => ?_, fun hshown depth hdepth => ?_⟩
  · obtain ⟨hrefusal, rfl⟩ := written_eq_ok_iff.mp hs
    refine ⟨fun hzero => ?_, fun depth hlayers => ⟨fun length => written_eq_ok_iff.mpr ⟨hrefusal, ?_⟩, ?_⟩⟩
    · rw [hv.compact_of_layers_eq_zero hzero]
      exact Text.length_truncate_le maxLength _
    · obtain ⟨_, _, _, -, -, -, -, -, hcompact⟩ := compact_of_layers_ne_zero (v := v) (by omega)
      rw [hcompact, hcompact]
    · have hpos : 0 < (toString v.crowd).length := Nat.length_repr_pos
      exact length_compact_le hv hlayers hpos ((Nat.length_repr_le_iff hpos).mp le_rfl) maxItems maxLength
  -- the bound in the layers cannot be dropped: a list around a bush has any number of them and more than four to that
  · have hlayers : (.list [bush depth] : Value Float).layers = depth + 1 := by
      rw [layers, layersAll, layersAll, layers_bush, Nat.max_zero]
    have hshort : (.list [bush depth] : Value Float).isOverlong = false := by
      rw [isOverlong, anyOverlong, anyOverlong, short_bush, Bool.or_false]
    refine ⟨.list [bush depth], _, .list fun v hv => ?_, hlayers, ?_,
      written_eq_ok_iff.mpr ⟨refusal?_eq_none hshort (by omega), rfl⟩, length_compact_bush hshown _ depth⟩
    · exact List.mem_singleton.mp hv ▸ plain_bush depth
    · rw [crowd, crowdAll, crowdAll]
      exact max_le (by simp) (max_le (crowd_bush depth) (Nat.zero_le 4))

/-- A tuple of a dictionary and a list. -/
def packed : Value Float :=
  .tuple [.dict [(.text "rows", .list [.int 1, .float 2.5])], .list [.nothing, .flag true]]

theorem plain_packed : packed.Plain := by
  refine .tuple (List.forall_mem_cons.mpr ⟨.dict ?_ ?_, List.forall_mem_singleton.mpr (.list ?_)⟩)
  · exact List.forall_mem_singleton.mpr (.text "rows")
  · refine List.forall_mem_singleton.mpr (.list ?_)
    exact List.forall_mem_cons.mpr ⟨.int 1, List.forall_mem_singleton.mpr (.float 2.5)⟩
  · exact List.forall_mem_cons.mpr ⟨.nothing, List.forall_mem_singleton.mpr (.flag true)⟩

/-- The packed tuple has two layers, since what is in a dictionary is not counted. -/
theorem written_bounded_packed : packed.Plain ∧ packed.layers = 2 ∧ ∃ s, written 1 2 10 packed = .ok s ∧
    written 1 2 0 packed = .ok s ∧ s.length ≤ 2 * (4 * 338) + 15 := by
  obtain ⟨hexists, -, hbounded, -⟩ := written_bounded packed plain_packed 1 2 10
  obtain ⟨s, hs⟩ := hexists rfl le_rfl
  obtain ⟨hsame, hlength⟩ := (hbounded s hs).2 1 rfl
  exact ⟨plain_packed, rfl, s, hs, hsame 0, hlength⟩

/-- Three layers of four are longer, at the limits that hold when none are given, than a text that is cut. -/
theorem written_exceeds : (bush 3 : Value Float).Plain ∧ ∃ s,
    written Journal.usualRoom shownItems shownLength (bush 3) = .ok s ∧ ¬s.length ≤ shownLength.toNat + 15 := by
  have hroom : (bush 3 : Value Float).layers ≤ Journal.usualRoom + 1 := by rw [layers_bush]; decide
  have hlength := length_shown_bush 3
  rw [shown] at hlength
  refine ⟨plain_bush 3, _, written_eq_ok_iff.mpr ⟨refusal?_eq_none (short_bush 3) hroom, rfl⟩, fun hbound => ?_⟩
  have hlimit : shownLength.toNat = 300 := rfl
  omega

end Value

end Linkage
