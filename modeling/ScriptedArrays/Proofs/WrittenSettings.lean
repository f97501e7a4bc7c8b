import ScriptedArrays.Proofs.SettingsTexts

/-! Settings written down. A section with one line for each setting, in any order, is read as exactly
these settings. Names and levels may hold whatever has a meaning elsewhere in the text: brackets, the
marks of comments and the delimiters themselves. -/

namespace ScriptedArrays

section

variable {s t : List Char}

theorem Strips.append {after : List Char} (h : Strips s t) (hafter : ∀ c ∈ after, isBlank c = true) :
    Strips (s ++ after) t := by
  obtain ⟨first, last, rfl, hfirst, hlast⟩ := h.around
  refine ⟨⟨first, last ++ after, List.append_assoc .., hfirst, fun c hc => ?_⟩, h.first, h.last⟩
  exact (List.mem_append.mp hc).elim (hlast c) (hafter c)

theorem Strips.prepend {before : List Char} (h : Strips s t)
    (hbefore : ∀ c ∈ before, isBlank c = true) : Strips (before ++ s) t := by
  obtain ⟨first, last, rfl, hfirst, hlast⟩ := h.around
  refine ⟨⟨before ++ first, last, by simp, fun c hc => ?_, hlast⟩, h.first, h.last⟩
  exact (List.mem_append.mp hc).elim (hbefore c) (hfirst c)

theorem strip_append {after : List Char} (hafter : ∀ c ∈ after, isBlank c = true) :
    strip (s ++ after) = strip s :=
  ((strips_strip s).append hafter).eq_strip.symm

theorem strip_prepend {before : List Char} (hbefore : ∀ c ∈ before, isBlank c = true) :
    strip (before ++ s) = strip s :=
  ((strips_strip s).prepend hbefore).eq_strip.symm

theorem strip_eq_self_iff : strip s = s ↔
    (∀ c ∈ s.head?, isBlank c = false) ∧ ∀ c ∈ s.getLast?, isBlank c = false := by
  constructor
  · intro h
    have hs := strips_strip s
    rw [h] at hs
    exact ⟨hs.first, hs.last⟩
  · rintro ⟨hfirst, hlast⟩
    have hs : Strips s s := ⟨⟨[], [], by simp, by simp, by simp⟩, hfirst, hlast⟩
    exact hs.eq_strip.symm

theorem strip_strip (s : List Char) : strip (strip s) = strip s :=
  strip_eq_self_iff.mpr ⟨(strips_strip s).first, (strips_strip s).last⟩

theorem stripText_stripText (text : String) : stripText (stripText text) = stripText text := by
  rw [stripText, stripText, String.toList_ofList, strip_strip]

theorem mem_of_mem_strip {c : Char} (h : c ∈ strip s) : c ∈ s := by
  obtain ⟨before, after, hs, -, -⟩ := (strips_strip s).around
  rw [hs]
  exact List.mem_append_left _ (List.mem_append_right _ h)

theorem exists_trimmed (s : List Char) : ∃ t after, s = t ++ after ∧
    (∀ c ∈ after, isBlank c = true) ∧ ∀ c ∈ t.getLast?, isBlank c = false := by
  refine ⟨(s.reverse.dropWhile isBlank).reverse, (s.reverse.takeWhile isBlank).reverse, ?_, ?_, ?_⟩
  · rw [← List.reverse_append, List.takeWhile_append_dropWhile, List.reverse_reverse]
  · exact fun c hc => List.mem_takeWhile_imp (List.mem_reverse.mp hc)
  · intro c hc
    rw [List.getLast?_reverse] at hc
    exact head?_dropWhile_isBlank _ c hc

end

namespace Ini

def IsKey (key : String) : Prop :=
  (∀ c ∈ key.toList, isBlank c = false ∧ c ≠ '=' ∧ c ≠ ':') ∧
    (∀ c ∈ key.toList.head?, c ≠ '#' ∧ c ≠ ';' ∧ c ≠ '[') ∧ key ≠ "" ∧ lowerText key = key

instance (key : String) : Decidable (IsKey key) :=
  @instDecidableAnd _ _ (List.decidableBAll _ _)
    (@instDecidableAnd _ _ (Option.decidableForallMem _) inferInstance)

/-- The line assigns the value to the key. An equals sign or a colon parts them, with any white space
of the line around it. -/
def Assigns (key value line : String) : Prop :=
  ∃ before after : List Char, ∃ delimiter ∈ ['=', ':'],
    (∀ c ∈ before ++ after, isBlank c = true ∧ c ≠ '\n') ∧
    line.toList = key.toList ++ before ++ delimiter :: (after ++ value.toList)

section Lines

variable {key value line : String}

theorem isBlank_of_delimiter {c : Char} (h : c ∈ ['=', ':']) : isBlank c = false := by
  simp only [List.mem_cons, List.not_mem_nil, or_false] at h
  rcases h with rfl | rfl <;> decide

/-- What is left of such a line without the white space around it. -/
theorem exists_strip_of_assigns (hkey : IsKey key) (h : Assigns key value line) :
    ∃ before rest : List Char, ∃ delimiter ∈ ['=', ':'], (∀ c ∈ before, isBlank c = true) ∧
      strip rest = strip value.toList ∧
      strip line.toList = key.toList ++ before ++ delimiter :: rest := by
  obtain ⟨before, after, delimiter, hdelimiter, hblanks, hline⟩ := h
  obtain ⟨rest, last, hrest, hlast, htrimmed⟩ := exists_trimmed (after ++ value.toList)
  refine ⟨before, rest, delimiter, hdelimiter,
    fun c hc => (hblanks c (List.mem_append_left _ hc)).1, ?_, ?_⟩
  · calc strip rest = strip (rest ++ last) := (strip_append hlast).symm
      _ = strip (after ++ value.toList) := by rw [hrest]
      _ = strip value.toList :=
        strip_prepend fun c hc => (hblanks c (List.mem_append_right _ hc)).1
  · refine (Strips.eq_strip ⟨⟨[], last, ?_, fun _ hc => absurd hc List.not_mem_nil, hlast⟩, ?_, ?_⟩).symm
    · rw [hline, hrest]
      simp
    · intro c hc
      obtain ⟨d, key', hkey'⟩ := List.exists_cons_of_ne_nil (mt String.toList_eq_nil_iff.mp hkey.2.2.1)
      rw [hkey'] at hc
      obtain rfl : d = c := Option.some.inj hc
      exact (hkey.1 d (hkey' ▸ List.mem_cons_self)).1
    · intro c hc
      rw [List.getLast?_append, List.getLast?_cons] at hc
      cases hl : rest.getLast? with
      | none =>
        rw [hl] at hc
        obtain rfl : delimiter = c := Option.some.inj hc
        exact isBlank_of_delimiter hdelimiter
      | some d =>
        rw [hl] at hc
        obtain rfl : d = c := Option.some.inj hc
        exact htrimmed d hl

theorem exists_head_of_isKey (hkey : IsKey key) : ∃ c rest, key.toList = c :: rest ∧
    isBlank c = false ∧ c ≠ '#' ∧ c ≠ ';' ∧ c ≠ '[' := by
  obtain ⟨hplain, hmark, hne, -⟩ := hkey
  obtain ⟨c, rest, hc⟩ := List.exists_cons_of_ne_nil (mt String.toList_eq_nil_iff.mp hne)
  rw [hc] at hplain hmark
  exact ⟨c, rest, hc, (hplain c List.mem_cons_self).1, hmark c rfl⟩

theorem strip_of_isKey (hkey : IsKey key) : strip key.toList = key.toList :=
  strip_eq_self_iff.mpr ⟨fun c hc => (hkey.1 c (List.mem_of_mem_head? hc)).1,
    fun c hc => (hkey.1 c (List.mem_of_getLast? hc)).1⟩

theorem ofChars_of_assigns (hkey : IsKey key) (h : Assigns key value line) :
    Line.ofChars line.toList = .text 0 (strip line.toList) := by
  obtain ⟨before, rest, delimiter, -, -, -, hstrip⟩ := exists_strip_of_assigns hkey h
  obtain ⟨c, key', hc, hblank, hhash, hsemicolon, -⟩ := exists_head_of_isKey hkey
  obtain ⟨before', after', _, -, -, hline⟩ := h
  have hindent : line.toList.takeWhile isBlank = [] := by
    rw [hline, hc]
    exact List.takeWhile_cons_of_neg (by simp [hblank])
  rw [Line.ofChars, hindent]
  rw [hc] at hstrip
  split
  · next heq => rw [hstrip] at heq; cases heq
  · next heq => rw [hstrip] at heq; exact absurd (List.cons.inj heq).1 hhash
  · next heq => rw [hstrip] at heq; exact absurd (List.cons.inj heq).1 hsemicolon
  · rfl

theorem headerLine?_of_assigns (hkey : IsKey key) (h : Assigns key value line) :
    headerLine? (strip line.toList) = none := by
  obtain ⟨before, rest, delimiter, -, -, -, hstrip⟩ := exists_strip_of_assigns hkey h
  obtain ⟨c, key', hc, -, -, -, hbracket⟩ := exists_head_of_isKey hkey
  rw [hstrip, hc, headerLine?.eq_def]
  split
  · next heq => exact absurd (List.cons.inj heq).1 hbracket
  · rfl

theorem optionLine?_of_assigns (hkey : IsKey key) (h : Assigns key value line) :
    optionLine? (strip line.toList) = some (key, strip value.toList) := by
  obtain ⟨before, rest, delimiter, hdelimiter, hbefore, hrest, hstrip⟩ := exists_strip_of_assigns hkey h
  have hplain : ∀ c ∈ key.toList ++ before, (c != '=' && c != ':') = true := by
    intro c hc
    rcases List.mem_append.mp hc with hc | hc
    · simp [(hkey.1 c hc).2]
    · have hne : c ≠ '=' ∧ c ≠ ':' := by
        constructor <;> rintro rfl <;> exact absurd (hbefore _ hc) (by decide)
      simp [hne]
  have hstop : (delimiter != '=' && delimiter != ':') = false := by
    simp only [List.mem_cons, List.not_mem_nil, or_false] at hdelimiter
    rcases hdelimiter with rfl | rfl <;> decide
  have hname : strip (key.toList ++ before) = key.toList :=
    (strip_append hbefore).trans (strip_of_isKey hkey)
  rw [optionLine?, hstrip, List.takeWhile_append_of_pos hplain, List.dropWhile_append_of_pos hplain]
  simp only [List.takeWhile_cons, List.dropWhile_cons, hstop, Bool.false_eq_true, if_false,
    List.append_nil, stripText, String.toList_ofList, hname, String.ofList_toList, hrest]
  rw [if_neg (by simp [hkey.2.2.1]), hkey.2.2.2]

end Lines

def Draft.inSection (name : String) (options : List (String × List (List Char)))
    (pending : Option String) : Draft :=
  ⟨[(name, options)], some name, pending, 0⟩

def optionsOf (assignments : List (String × String)) : List (String × List (List Char)) :=
  assignments.map fun a => (a.1, [strip a.2.toList])

section Sections

variable {name key value line : String} {options : List (String × List (List Char))}
  {pending : Option String} {assignments : List (String × String)} {lines : List String}

theorem updateKey_self {α : Type} (name : String) (f : α → α) (a : α) :
    updateKey name f [(name, a)] = [(name, f a)] := by
  simp [updateKey]

theorem read_of_assigns (hkey : IsKey key) (h : Assigns key value line)
    (hnew : key ∉ options.map Prod.fst) :
    (Draft.inSection name options pending).read (.ofChars line.toList) =
      some (.inSection name (options ++ [(key, [strip value.toList])]) (some key)) := by
  have hstart : (Draft.inSection name options pending).start 0 (strip line.toList) =
      some (.inSection name (options ++ [(key, [strip value.toList])]) (some key)) := by
    have hoption : (Draft.inSection name options pending).hasOption name key = false := by
      simp only [Draft.inSection, Draft.hasOption, List.any_cons, beq_self_eq_true, Bool.true_and,
        List.any_nil, Bool.or_false, List.any_eq_false, beq_iff_eq]
      exact fun o ho heq => hnew (List.mem_map.mpr ⟨o, ho, heq⟩)
    rw [Draft.start, headerLine?_of_assigns hkey h, optionLine?_of_assigns hkey h]
    simp only [Draft.inSection] at hoption ⊢
    rw [Draft.addOption, hoption, updateKey_self]
    rfl
  rw [ofChars_of_assigns hkey h, Draft.read.eq_def]
  cases pending with
  | none => exact hstart
  | some last => exact hstart

theorem readAll_append (d : Draft) (before after : List Line) :
    d.readAll (before ++ after) = (d.readAll before).bind (·.readAll after) := by
  induction before generalizing d with
  | nil => rfl
  | cons l before ih =>
    rw [List.cons_append, Draft.readAll, Draft.readAll]
    cases d.read l with
    | none => rfl
    | some d => exact ih d

theorem readAll_of_assigns (hkeys : ∀ a ∈ assignments, IsKey a.1)
    (hlines : List.Forall₂ (fun a line => Assigns a.1 a.2 line) assignments lines)
    (hnew : (options.map Prod.fst ++ assignments.map Prod.fst).Nodup) :
    ∃ last, (Draft.inSection name options pending).readAll (lines.map fun l => .ofChars l.toList) =
      some (.inSection name (options ++ optionsOf assignments) last) := by
  induction hlines generalizing options pending with
  | nil => exact ⟨pending, by simp [optionsOf, Draft.readAll]⟩
  | @cons a line assignments lines h _ ih =>
    have hfirst : a.1 ∉ options.map Prod.fst := by
      intro hmem
      exact List.disjoint_of_nodup_append hnew hmem List.mem_cons_self
    have hrest : ((options ++ [(a.1, [strip a.2.toList])]).map Prod.fst ++
        assignments.map Prod.fst).Nodup := by simpa using hnew
    obtain ⟨last, hlast⟩ := ih (fun b hb => hkeys b (List.mem_cons_of_mem a hb)) hrest
    refine ⟨last, ?_⟩
    rw [List.map_cons, Draft.readAll, read_of_assigns (hkeys a List.mem_cons_self) h hfirst]
    simpa [optionsOf] using hlast

theorem joinValue_strip (s : List Char) : joinValue [strip s] = String.ofList (strip s) := by
  have hlast : (strip s).reverse.dropWhile isBlank = (strip s).reverse := by
    refine dropWhile_isBlank_of_head? ?_
    rw [List.head?_reverse]
    exact (strips_strip s).last
  rw [joinValue, List.intercalate_singleton, hlast, List.reverse_reverse]

theorem joinValue_strip_nil (s : List Char) : joinValue [strip s, []] = String.ofList (strip s) := by
  have hend : (strip s ++ ['\n']).reverse.dropWhile isBlank = (strip s).reverse.dropWhile isBlank := by
    rw [List.reverse_append]
    exact List.dropWhile_cons_of_pos (by decide)
  rw [← joinValue_strip, joinValue, joinValue, List.intercalate_cons_cons, List.intercalate_singleton,
    List.intercalate_singleton, List.append_nil, hend]

theorem finish_inSection (name : String) (assignments : List (String × String))
    (pending : Option String) : (Draft.inSection name (optionsOf assignments) pending).finish =
      ⟨[(name, assignments.map fun a => (a.1, stripText a.2))]⟩ := by
  simp [Draft.finish, Draft.inSection, optionsOf, joinValue_strip, stripText]

theorem read_blank_inSection (name : String) (assignments : List (String × String))
    (pending : Option String) : ∃ d, (Draft.inSection name (optionsOf assignments) pending).read .blank =
      some d ∧ d.finish = ⟨[(name, assignments.map fun a => (a.1, stripText a.2))]⟩ := by
  cases pending with
  | none => exact ⟨_, rfl, finish_inSection name assignments none⟩
  | some last =>
    refine ⟨.inSection name (updateKey last (· ++ [[]]) (optionsOf assignments)) (some last), ?_, ?_⟩
    · simp only [Draft.read, Draft.inSection, Draft.continueWith, updateKey_self]
    · have hvalue : ∀ a : String × String, (a.1, joinValue (if a.1 = last then [strip a.2.toList, []]
          else [strip a.2.toList])) = (a.1, stripText a.2) := by
        intro a
        by_cases ha : a.1 = last
        · rw [if_pos ha, joinValue_strip_nil, stripText]
        · rw [if_neg ha, joinValue_strip, stripText]
      simp only [Draft.finish, Draft.inSection, List.map_cons, List.map_nil, updateKey, optionsOf,
        List.map_map, ← hvalue]
      congr 3
      refine List.map_congr_left fun a _ => ?_
      by_cases ha : a.1 = last <;> simp [ha]

end Sections

theorem find?_of_mem {α : Type} {l : List (String × α)} {key : String} {a : α} (h : (key, a) ∈ l)
    (hl : (l.map Prod.fst).Nodup) : l.find? (·.1 == key) = some (key, a) := by
  induction l with
  | nil => cases h
  | cons p l ih =>
    rw [List.map_cons, List.nodup_cons] at hl
    rcases List.mem_cons.mp h with rfl | h
    · exact List.find?_cons_of_pos (beq_self_eq_true key)
    · have hne : p.1 ≠ key := by
        rintro rfl
        exact hl.1 (List.mem_map.mpr ⟨_, h, rfl⟩)
      rw [List.find?_cons_of_neg (by simp [hne])]
      exact ih h hl.2

theorem expandFrom_of_not_mem (lookup : String → Option String)
    (expand : List Char → Option (List Char)) {s : List Char} (h : '%' ∉ s) :
    expandFrom lookup expand s.length s = some s := by
  induction s with
  | nil => rfl
  | cons c s ih =>
    have hc : c ≠ '%' := fun hc => h (hc ▸ List.mem_cons_self)
    rw [List.length_cons, expandFrom.eq_def]
    dsimp only
    split
    · next heq => cases heq
    · next heq => exact absurd (List.cons.inj heq).1 hc
    · next heq => exact absurd (List.cons.inj heq).1 hc
    · next heq => exact absurd (List.cons.inj heq).1 hc
    · next heq =>
      obtain ⟨rfl, rfl⟩ := List.cons.inj heq
      rw [ih fun hs => h (List.mem_cons_of_mem _ hs)]
      rfl

theorem get_of_mem {name key value : String} {options : Options} (h : (key, value) ∈ options)
    (hkeys : (options.map Prod.fst).Nodup) (hvalue : '%' ∉ value.toList) :
    (⟨[(name, options)]⟩ : Ini).get name key = .value value := by
  have hoptions : (⟨[(name, options)]⟩ : Ini).options name = options := by
    simp [Ini.options]
  have hraw : (⟨[(name, options)]⟩ : Ini).raw? name key = some value := by
    rw [raw?, hoptions, List.find?_append, find?_of_mem h hkeys]
    rfl
  have hexpand : ∀ lookup, expand lookup nesting value.toList = some value.toList :=
    fun lookup => expandFrom_of_not_mem lookup _ hvalue
  rw [Ini.get, hraw]
  simp only [hexpand, String.ofList_toList]

def HasLines (text : String) (lines : List String) : Prop :=
  text = "\n".intercalate lines ∨ text = "\n".intercalate lines ++ "\n"

section Texts

variable {text header : String} {lines : List String} {assignments : List (String × String)}

theorem intercalate_append_nil (part : List Char) (parts : List (List Char)) :
    ['\n'].intercalate (part :: parts ++ [[]]) = ['\n'].intercalate (part :: parts) ++ ['\n'] := by
  induction parts generalizing part with
  | nil => simp [List.intercalate_cons_cons]
  | cons next parts ih =>
    rw [List.cons_append, List.cons_append, List.intercalate_cons_cons, List.intercalate_cons_cons,
      ← List.cons_append, ih, List.append_assoc (part ++ ['\n'])]

/-- The lines of a text are read apart. A last one that is ended leaves an empty one behind it. -/
theorem splitLines_of_hasLines (h : HasLines text (header :: lines))
    (hlines : ∀ line ∈ header :: lines, '\n' ∉ line.toList) :
    ∃ last : List (List Char), (last = [] ∨ last = [[]]) ∧
      splitLines text.toList = (header :: lines).map String.toList ++ last := by
  have hjoined : ("\n".intercalate (header :: lines)).toList =
      ['\n'].intercalate ((header :: lines).map String.toList) := String.toList_intercalate
  have hsplit : ∀ parts : List (List Char), (∀ part ∈ parts, '\n' ∉ part) → parts ≠ [] →
      splitLines (['\n'].intercalate parts) = parts := fun _ => List.splitOn_intercalate '\n'
  have hparts : ∀ part ∈ (header :: lines).map String.toList, '\n' ∉ part := by
    intro part hpart
    obtain ⟨line, hline, rfl⟩ := List.mem_map.mp hpart
    exact hlines line hline
  rcases h with rfl | rfl
  · exact ⟨[], .inl rfl, by rw [hjoined, hsplit _ hparts (by simp), List.append_nil]⟩
  · refine ⟨[[]], .inr rfl, ?_⟩
    -- the line feed at the end parts the lines from an empty one
    have hend : ("\n".intercalate (header :: lines) ++ "\n").toList =
        ['\n'].intercalate ((header :: lines).map String.toList ++ [[]]) := by
      rw [String.toList_append, hjoined, List.map_cons, intercalate_append_nil]
      rfl
    rw [hend, hsplit _ ?_ (by simp)]
    intro part hpart
    rcases List.mem_append.mp hpart with hpart | hpart
    · exact hparts part hpart
    · rw [List.mem_singleton.mp hpart]
      exact List.not_mem_nil

theorem not_mem_of_assigns {key value line : String} (hkey : IsKey key) (h : Assigns key value line)
    (hvalue : '\n' ∉ value.toList) : '\n' ∉ line.toList := by
  obtain ⟨before, after, delimiter, hdelimiter, hblanks, hline⟩ := h
  have hkeys : '\n' ∉ key.toList := fun hmem => absurd (hkey.1 _ hmem).1 (by decide)
  have hblank : '\n' ∉ before ++ after := fun hmem => (hblanks _ hmem).2 rfl
  have hparts : '\n' ≠ delimiter := by
    rintro rfl
    exact absurd (isBlank_of_delimiter hdelimiter) (by decide)
  rw [List.mem_append, not_or] at hblank
  simp [hline, hkeys, hblank, hparts, hvalue]

/-- A section with assignments to different keys is read as these, in their order. -/
theorem parse?_of_assigns (h : HasLines text ("[Bridge]" :: lines))
    (hkeys : ∀ a ∈ assignments, IsKey a.1) (hvalues : ∀ a ∈ assignments, '\n' ∉ a.2.toList)
    (hlines : List.Forall₂ (fun a line => Assigns a.1 a.2 line) assignments lines)
    (hnodup : (assignments.map Prod.fst).Nodup) :
    parse? text = some ⟨[("Bridge", assignments.map fun a => (a.1, stripText a.2))]⟩ := by
  have hfeeds : ∀ line ∈ "[Bridge]" :: lines, '\n' ∉ line.toList := by
    intro line hline
    rcases List.mem_cons.mp hline with rfl | hline
    · decide
    · obtain ⟨i, hi, rfl⟩ := List.mem_iff_getElem.mp hline
      have ha : i < assignments.length := hlines.length_eq ▸ hi
      have hassigns := (List.forall₂_iff_get.mp hlines).2 i ha hi
      exact not_mem_of_assigns (hkeys _ (List.get_mem _ _)) hassigns (hvalues _ (List.get_mem _ _))
  obtain ⟨last, hlast, hsplit⟩ := splitLines_of_hasLines h hfeeds
  obtain ⟨pending, hread⟩ : ∃ pending,
      (Draft.inSection "Bridge" [] none).readAll (lines.map fun l => .ofChars l.toList) =
        some (.inSection "Bridge" (optionsOf assignments) pending) :=
    readAll_of_assigns hkeys hlines (by simpa using hnodup)
  have hopen : Draft.empty.read (.ofChars "[Bridge]".toList) = some (.inSection "Bridge" [] none) := rfl
  have hmap : (("[Bridge]" :: lines).map String.toList).map Line.ofChars =
      .ofChars "[Bridge]".toList :: lines.map fun l => .ofChars l.toList := by simp
  have hlines : Draft.empty.readAll (.ofChars "[Bridge]".toList :: lines.map fun l => .ofChars l.toList) =
      some (.inSection "Bridge" (optionsOf assignments) pending) := by
    rw [Draft.readAll, hopen]
    exact hread
  rw [parse?, hsplit, List.map_append, hmap, readAll_append, hlines, Option.bind_some]
  rcases hlast with rfl | rfl
  · exact congrArg some (finish_inSection _ _ _)
  · obtain ⟨d, hd, hfinish⟩ := read_blank_inSection "Bridge" assignments pending
    have hblank : (Draft.inSection "Bridge" (optionsOf assignments) pending).readAll [.blank] =
        some d := by
      rw [Draft.readAll, hd]
      rfl
    have hempty : [[]].map Line.ofChars = [.blank] := rfl
    rw [hempty, hblank]
    exact congrArg some hfinish

end Texts

end Ini
namespace Settings

def flagText (b : Bool) : String := if b then "true" else "false"

def assignments (s : Settings) : List (String × String) := [
  ("log_level", s.logLevel),
  ("identity_cache", flagText s.reusesViews),
  ("truncate_strings", flagText s.truncatesText),
  ("exposed_members.csv", ",".intercalate s.exposed)]

/-- The settings can be written down. The level is in upper case, and neither it nor a name has white
space around it, spans lines or refers to other options. Commas part the names. -/
structure IsWritable (s : Settings) : Prop where
  level : upperText (stripText s.logLevel) = s.logLevel
  levelText : '\n' ∉ s.logLevel.toList ∧ '%' ∉ s.logLevel.toList
  names : ∀ name ∈ s.exposed, name ≠ "" ∧ stripText name = name
  namesText : ∀ name ∈ s.exposed, ',' ∉ name.toList ∧ '\n' ∉ name.toList ∧ '%' ∉ name.toList

/-- The text is a section with one line for each of the settings, in any order. -/
def WrittenIn (s : Settings) (text : String) : Prop :=
  ∃ assignments lines, assignments.Perm s.assignments ∧
    List.Forall₂ (fun a line => Ini.Assigns a.1 a.2 line) assignments lines ∧
    Ini.HasLines text ("[Bridge]" :: lines)

section

variable {s : Settings} {t : String}

theorem isKey_of_mem {a : String × String} (h : a ∈ s.assignments) : Ini.IsKey a.1 := by
  simp only [assignments, List.mem_cons, List.not_mem_nil, or_false] at h
  rcases h with rfl | rfl | rfl | rfl
  · show Ini.IsKey "log_level"
    decide
  · show Ini.IsKey "identity_cache"
    decide
  · show Ini.IsKey "truncate_strings"
    decide
  · show Ini.IsKey "exposed_members.csv"
    decide

theorem mem_of_mem_intercalate {c : Char} {names : List String}
    (h : c ∈ (",".intercalate names).toList) : c = ',' ∨ ∃ name ∈ names, c ∈ name.toList := by
  rw [String.toList_intercalate] at h
  induction names with
  | nil => cases h
  | cons name names ih =>
    cases names with
    | nil =>
      rw [List.map_singleton, List.intercalate_singleton] at h
      exact .inr ⟨name, List.mem_cons_self, h⟩
    | cons next names =>
      rw [List.map_cons, List.map_cons, List.intercalate_cons_cons, List.mem_append,
        List.mem_append] at h
      rcases h with (h | h) | h
      · exact .inr ⟨name, List.mem_cons_self, h⟩
      · exact .inl (List.mem_singleton.mp h)
      · rcases ih h with h | ⟨other, hother, h⟩
        · exact .inl h
        · exact .inr ⟨other, List.mem_cons_of_mem name hother, h⟩

theorem IsWritable.inLine (hs : s.IsWritable) {a : String × String} (h : a ∈ s.assignments) :
    '\n' ∉ a.2.toList ∧ '%' ∉ a.2.toList := by
  have hflag : ∀ b, '\n' ∉ (flagText b).toList ∧ '%' ∉ (flagText b).toList := by decide
  simp only [assignments, List.mem_cons, List.not_mem_nil, or_false] at h
  rcases h with rfl | rfl | rfl | rfl
  · exact hs.levelText
  · exact hflag _
  · exact hflag _
  · constructor
    · intro hmem
      rcases mem_of_mem_intercalate hmem with hcomma | ⟨name, hname, hc⟩
      · exact absurd hcomma (by decide)
      · exact (hs.namesText name hname).2.1 hc
    · intro hmem
      rcases mem_of_mem_intercalate hmem with hcomma | ⟨name, hname, hc⟩
      · exact absurd hcomma (by decide)
      · exact (hs.namesText name hname).2.2 hc

theorem head?_intercalate {part : List Char} (parts : List (List Char)) (h : part ≠ []) :
    ([','].intercalate (part :: parts)).head? = part.head? := by
  cases parts with
  | nil => rw [List.intercalate_singleton]
  | cons next parts =>
    rw [List.intercalate_cons_cons, List.append_assoc, List.head?_append_of_ne_nil _ h]

theorem getLast?_intercalate {parts : List (List Char)} (hne : parts ≠ []) (h : [] ∉ parts) :
    ∃ part ∈ parts, ([','].intercalate parts).getLast? = part.getLast? := by
  induction parts with
  | nil => exact absurd rfl hne
  | cons part parts ih =>
    cases parts with
    | nil => exact ⟨part, List.mem_cons_self, by rw [List.intercalate_singleton]⟩
    | cons next parts =>
      obtain ⟨last, hlast, heq⟩ := ih (List.cons_ne_nil _ _) fun hmem => h (List.mem_cons_of_mem _ hmem)
      have hsome : last.getLast?.isSome := by
        rw [List.getLast?_isSome]
        rintro rfl
        exact h (List.mem_cons_of_mem _ hlast)
      refine ⟨last, List.mem_cons_of_mem _ hlast, ?_⟩
      rw [List.intercalate_cons_cons, List.getLast?_append, heq, Option.or_of_isSome hsome]

theorem strip_intercalate {parts : List (List Char)} (h : ∀ part ∈ parts, part ≠ [] ∧ strip part = part) :
    strip ([','].intercalate parts) = [','].intercalate parts := by
  cases parts with
  | nil => rfl
  | cons part parts =>
    obtain ⟨hne, hpart⟩ := h part List.mem_cons_self
    refine strip_eq_self_iff.mpr ⟨?_, ?_⟩
    · rw [head?_intercalate parts hne]
      exact (strip_eq_self_iff.mp hpart).1
    · obtain ⟨last, hlast, heq⟩ := getLast?_intercalate (List.cons_ne_nil part parts)
        fun hmem => (h [] hmem).1 rfl
      rw [heq]
      exact (strip_eq_self_iff.mp (h last hlast).2).2

theorem IsWritable.parts (hs : s.IsWritable) :
    ∀ part ∈ s.exposed.map String.toList, part ≠ [] ∧ strip part = part := by
  intro part hpart
  obtain ⟨name, hname, rfl⟩ := List.mem_map.mp hpart
  obtain ⟨hne, hstrip⟩ := hs.names name hname
  refine ⟨mt String.toList_eq_nil_iff.mp hne, ?_⟩
  have hlist : (stripText name).toList = name.toList := congrArg String.toList hstrip
  rwa [stripText, String.toList_ofList] at hlist

/-- The joined names list the names. -/
theorem IsWritable.lists (hs : s.IsWritable) :
    Lists (stripText (",".intercalate s.exposed)) s.exposed := by
  have hjoined : (stripText (",".intercalate s.exposed)).toList =
      [','].intercalate (s.exposed.map String.toList) := by
    rw [stripText, String.toList_ofList, String.toList_intercalate]
    exact strip_intercalate hs.parts
  by_cases hnil : s.exposed = []
  · refine ⟨[[]], [[]], by simp, by simp, ?_, ?_, ?_⟩
    · rw [hjoined, hnil]
      rfl
    · exact forall₂_strips_iff.mpr rfl
    · rw [hnil]
      rfl
  · refine ⟨s.exposed.map String.toList, s.exposed.map String.toList, by simpa using hnil, ?_, hjoined,
      ?_, ?_⟩
    · intro part hpart
      obtain ⟨name, hname, rfl⟩ := List.mem_map.mp hpart
      exact (hs.namesText name hname).1
    · refine forall₂_strips_iff.mpr ?_
      rw [List.map_congr_left fun part hpart => (hs.parts part hpart).2, List.map_id']
    · rw [List.filter_eq_self.mpr fun part hpart => by simpa using (hs.parts part hpart).1,
        List.map_map]
      simp

/-- The section that the text is read as provides the settings. -/
theorem IsWritable.supplies (hs : s.IsWritable) (h : s.WrittenIn t) :
    (Source.text t).Supplies s := by
  obtain ⟨written, lines, hperm, hlines, htext⟩ := h
  have hmem : ∀ a, a ∈ written ↔ a ∈ s.assignments := fun _ => hperm.mem_iff
  have hnodup : (written.map Prod.fst).Nodup := by
    have hkeys : ["log_level", "identity_cache", "truncate_strings", "exposed_members.csv"].Nodup := by
      decide
    exact (hperm.map Prod.fst).nodup_iff.mpr hkeys
  have hini := Ini.parse?_of_assigns htext (fun a ha => isKey_of_mem ((hmem a).mp ha))
    (fun a ha => (hs.inLine ((hmem a).mp ha)).1) hlines hnodup
  have hget : ∀ key value, (key, value) ∈ s.assignments →
      (⟨[("Bridge", written.map fun a => (a.1, stripText a.2))]⟩ : Ini).get sectionName key =
        .value (stripText value) := by
    intro key value ha
    refine Ini.get_of_mem (List.mem_map.mpr ⟨_, (hmem _).mpr ha, rfl⟩) ?_ ?_
    · rwa [List.map_map]
    · intro hpercent
      rw [stripText, String.toList_ofList] at hpercent
      exact (hs.inLine ha).2 (mem_of_mem_strip hpercent)
  have hflag : ∀ key b, (key, flagText b) ∈ s.assignments →
      Provides Means false ((⟨[("Bridge", written.map fun a => (a.1, stripText a.2))]⟩ : Ini).get
        sectionName key) b := by
    have hmeans : ∀ b, Means (stripText (flagText b)) b := by
      intro b
      rw [means_iff]
      cases b <;> decide
    intro key b ha
    rw [hget key _ ha]
    exact hmeans b
  refine .section rfl hini rfl ⟨?_, hflag _ _ (by simp [assignments]), hflag _ _ (by simp [assignments]),
    ?_⟩
  · rw [hget _ _ (List.mem_cons_self ..)]
    refine namesLevel_iff.mpr ?_
    rw [stripText_stripText, hs.level]
  · rw [hget "exposed_members.csv" (",".intercalate s.exposed) (by simp [assignments])]
    exact hs.lists

/-- Settings that can be written down are read back from every text that writes them down, and
nothing is logged. -/
theorem read_written (hs : s.IsWritable) (h : s.WrittenIn t) (w : World) :
    read (.text t) w = .ok s w := by
  rw [read, (hs.supplies h).ofSource?]
  rfl

def emblems : Settings := ⟨"=[X]; #:Y", true, false, ["a=b:c", "[d]", "#e", ";f g"]⟩

def emblemsText : String :=
  "[Bridge]\nexposed_members.csv:a=b:c,[d],#e,;f g\ntruncate_strings = false\n" ++
    "log_level\t=  =[X]; #:Y\nidentity_cache =true\n"

theorem writtenIn_emblems : emblems.WrittenIn emblemsText := by
  refine ⟨[("exposed_members.csv", "a=b:c,[d],#e,;f g"), ("truncate_strings", "false"),
    ("log_level", "=[X]; #:Y"), ("identity_cache", "true")],
    ["exposed_members.csv:a=b:c,[d],#e,;f g", "truncate_strings = false", "log_level\t=  =[X]; #:Y",
    "identity_cache =true"], by decide, ?_, .inr rfl⟩
  refine .cons ⟨[], [], ':', by decide, by simp, rfl⟩ (.cons ⟨[' '], [' '], '=', by decide, ?_, rfl⟩
    (.cons ⟨['\t'], [' ', ' '], '=', by decide, ?_, rfl⟩ (.cons ⟨[' '], [], '=', by decide, ?_, rfl⟩ .nil)))
  all_goals
    simp only [List.cons_append, List.nil_append, List.forall_mem_cons, List.not_mem_nil, false_imp_iff,
      implies_true, and_true]
    decide

/-- Settings full of delimiters are read back from a text with other delimiters and another order of
the lines. -/
theorem read_written_symbols : emblems.IsWritable ∧ emblems.WrittenIn emblemsText ∧
    read (.text emblemsText) .empty = .ok emblems .empty := by
  have hwritable : emblems.IsWritable := ⟨by decide, by decide, by decide, by decide⟩
  exact ⟨hwritable, writtenIn_emblems, read_written hwritable writtenIn_emblems .empty⟩

end
end Settings
end ScriptedArrays
