import Mathlib
import ScriptedArrays.Settings.Read
import ScriptedArrays.Proofs.Outcome

/-! Settings are read as a whole. Either all of them come from the section of the text, with the
standard value for a key that it does not have, and nothing is logged, or all of them are standard
and one warning is logged. -/

namespace ScriptedArrays

structure Strips (s t : List Char) : Prop where
  around : ∃ before after, s = before ++ t ++ after ∧ (∀ c ∈ before, isBlank c = true) ∧
    ∀ c ∈ after, isBlank c = true
  first : ∀ c ∈ t.head?, isBlank c = false
  last : ∀ c ∈ t.getLast?, isBlank c = false

section

variable {s t : List Char}

theorem dropWhile_isBlank_of_head? (h : ∀ c ∈ t.head?, isBlank c = false) :
    t.dropWhile isBlank = t := by
  cases t with
  | nil => rfl
  | cons c t =>
    have hc : isBlank c = false := h c rfl
    exact List.dropWhile_cons_of_neg (by simp [hc])

theorem head?_dropWhile_isBlank (s : List Char) : ∀ c ∈ (s.dropWhile isBlank).head?, isBlank c = false := by
  intro c hc
  have hnot := List.head?_dropWhile_not isBlank s
  rw [Option.mem_def.mp hc] at hnot
  exact hnot

theorem strips_strip (s : List Char) : Strips s (strip s) := by
  have hback : s.dropWhile isBlank =
      strip s ++ ((s.dropWhile isBlank).reverse.takeWhile isBlank).reverse := by
    rw [strip, ← List.reverse_append, List.takeWhile_append_dropWhile, List.reverse_reverse]
  constructor
  · refine ⟨s.takeWhile isBlank, ((s.dropWhile isBlank).reverse.takeWhile isBlank).reverse, ?_,
      fun c hc => List.mem_takeWhile_imp hc,
      fun c hc => List.mem_takeWhile_imp (List.mem_reverse.mp hc)⟩
    rw [List.append_assoc, ← hback, List.takeWhile_append_dropWhile]
  · intro c hc
    refine head?_dropWhile_isBlank s c ?_
    rw [hback, List.head?_append, Option.mem_def.mp hc]
    rfl
  · intro c hc
    rw [strip, List.getLast?_reverse] at hc
    exact head?_dropWhile_isBlank _ c hc

theorem Strips.eq_strip (h : Strips s t) : t = strip s := by
  obtain ⟨before, after, rfl, hbefore, hafter⟩ := h.around
  rw [strip, List.append_assoc, List.dropWhile_append_of_pos hbefore]
  cases t with
  | nil =>
    rw [List.nil_append, List.dropWhile_eq_nil_iff.mpr hafter]
    rfl
  | cons c t =>
    have hc : isBlank c = false := h.first c rfl
    have hhead : ∀ d ∈ (c :: t).reverse.head?, isBlank d = false := by
      rw [List.head?_reverse]
      exact h.last
    rw [List.cons_append, List.dropWhile_cons_of_neg (by simp [hc]), ← List.cons_append,
      List.reverse_append, List.dropWhile_append_of_pos fun d hd => hafter d (List.mem_reverse.mp hd),
      dropWhile_isBlank_of_head? hhead, List.reverse_reverse]

theorem forall₂_strips_iff {parts stripped : List (List Char)} :
    List.Forall₂ Strips parts stripped ↔ stripped = parts.map strip := by
  constructor
  · intro h
    induction h with
    | nil => rfl
    | cons h _ ih => rw [List.map_cons, h.eq_strip, ih]
  · rintro rfl
    rw [List.forall₂_map_right_iff, List.forall₂_same]
    exact fun s _ => strips_strip s

theorem not_mem_of_mem_splitOn {a : Char} {part : List Char} (h : part ∈ s.splitOn a) : a ∉ part := by
  induction s generalizing part with
  | nil =>
    rw [List.splitOn_nil, List.mem_singleton] at h
    simp [h]
  | cons c s ih =>
    rw [List.splitOn_cons_eq_if_modifyHead] at h
    split at h
    · rcases List.mem_cons.mp h with rfl | h
      · exact List.not_mem_nil
      · exact ih h
    · rename_i hne
      cases hsplit : s.splitOn a with
      | nil => exact absurd hsplit (List.splitOn_ne_nil a s)
      | cons first rest =>
        rw [hsplit, List.modifyHead_cons] at h
        rcases List.mem_cons.mp h with rfl | h
        · have hfirst := ih (hsplit ▸ List.mem_cons_self)
          intro hmem
          rcases List.mem_cons.mp hmem with rfl | hmem
          · exact hne (beq_self_eq_true _)
          · exact hfirst hmem
        · exact ih (hsplit ▸ List.mem_cons_of_mem first h)

end

namespace Settings

def NamesLevel (s level : String) : Prop := ∃ t, Strips s.toList t ∧ level = upperText (String.ofList t)

def Means (s : String) : Bool → Prop
  | true => lowerText s ∈ ["1", "yes", "true", "on"]
  | false => lowerText s ∈ ["0", "no", "false", "off"]

/-- The names are what stands between the commas of the text, in order, without the white space around it
and without what is empty. -/
def Lists (s : String) (names : List String) : Prop := ∃ parts stripped : List (List Char),
  parts ≠ [] ∧ (∀ part ∈ parts, ',' ∉ part) ∧ s.toList = [','].intercalate parts ∧
    List.Forall₂ Strips parts stripped ∧ names = (stripped.filter (· ≠ [])).map String.ofList

def Provides {α : Type} (reads : String → α → Prop) (standard : α) : Ini.Found → α → Prop
  | .absent, a => a = standard
  | .unreadable, _ => False
  | .value s, a => reads s a

def flagKeys : List String := ["identity_cache", "truncate_strings"]

def keys : List String := flagKeys ++ ["log_level", "exposed_members.csv"]

structure Provided (ini : Ini) (s : Settings) : Prop where
  logLevel : Provides NamesLevel "WARNING" (ini.get sectionName "log_level") s.logLevel
  reusesViews : Provides Means false (ini.get sectionName "identity_cache") s.reusesViews
  truncatesText : Provides Means false (ini.get sectionName "truncate_strings") s.truncatesText
  exposed : Provides Lists standardMembers (ini.get sectionName "exposed_members.csv") s.exposed

def Source.Holds : Source → String → Prop
  | .text s, t => t = s
  | .file content, t => ∃ s : String, s.toUTF8 = ⟨content.toArray⟩ ∧
      t = String.ofList (unifyLineEnds s.toList)
  | .nothing, _ => False

/-- All settings come from the source. Without a section for them they are standard. -/
inductive Source.Supplies : Source → Settings → Prop
  | nothing : Supplies .nothing standard
  | sectionless {source : Source} {t : String} {ini : Ini} (ht : source.Holds t)
      (hini : Ini.parse? t = some ini) (hsec : ini.hasSection sectionName = false) :
      Supplies source standard
  | section {source : Source} {t : String} {ini : Ini} {s : Settings} (ht : source.Holds t)
      (hini : Ini.parse? t = some ini) (hsec : ini.hasSection sectionName = true)
      (hs : Provided ini s) : Supplies source s

/-- Something about the source is unreadable: its encoding, its grammar, the references in one of the
options, or the word of a flag. -/
inductive Source.Fails : Source → Prop
  | encoding {content : List UInt8} (h : ∀ s : String, s.toUTF8 ≠ ⟨content.toArray⟩) :
      Fails (.file content)
  | grammar {source : Source} {t : String} (ht : source.Holds t) (h : Ini.parse? t = none) :
      Fails source
  | reference {source : Source} {t key : String} {ini : Ini} (ht : source.Holds t)
      (hini : Ini.parse? t = some ini) (hsec : ini.hasSection sectionName = true) (hkey : key ∈ keys)
      (h : ini.get sectionName key = .unreadable) : Fails source
  | flag {source : Source} {t key word : String} {ini : Ini} (ht : source.Holds t)
      (hini : Ini.parse? t = some ini) (hsec : ini.hasSection sectionName = true)
      (hkey : key ∈ flagKeys) (hword : ini.get sectionName key = .value word)
      (h : ∀ b, ¬ Means word b) : Fails source

section

variable {source : Source} {ini : Ini} {found : Ini.Found} {s s' : Settings} {t word : String}

theorem namesLevel_iff {level : String} : NamesLevel t level ↔ level = upperText (stripText t) := by
  constructor
  · rintro ⟨u, hu, rfl⟩
    rw [hu.eq_strip]
    rfl
  · rintro rfl
    exact ⟨_, strips_strip _, rfl⟩

theorem means_iff {b : Bool} : Means word b ↔ flag? word = some b := by
  have hdisjoint : ∀ w : String, w ∈ ["1", "yes", "true", "on"] → w ∉ ["0", "no", "false", "off"] := by
    decide
  rw [flag?]
  by_cases hyes : lowerText word ∈ ["1", "yes", "true", "on"]
  · have hno := hdisjoint _ hyes
    cases b <;> simp [Means, hyes, hno]
  · by_cases hno : lowerText word ∈ ["0", "no", "false", "off"]
    · cases b <;> simp [Means, hyes, hno]
    · cases b <;> simp [Means, hyes, hno]

theorem names_eq (t : String) :
    names t = (((t.toList.splitOn ',').map strip).filter (· ≠ [])).map String.ofList := by
  rw [names]
  generalize (t.toList.splitOn ',').map strip = parts
  induction parts with
  | nil => rfl
  | cons p parts ih =>
    cases p with
    | nil => simpa using ih
    | cons c p => simpa using ih

theorem lists_iff {l : List String} : Lists t l ↔ l = names t := by
  rw [names_eq]
  constructor
  · rintro ⟨parts, stripped, hne, hcomma, heq, hstrips, rfl⟩
    rw [heq, List.splitOn_intercalate ',' hcomma hne, forall₂_strips_iff.mp hstrips]
  · rintro rfl
    exact ⟨t.toList.splitOn ',', _, List.splitOn_ne_nil _ _, fun _ => not_mem_of_mem_splitOn,
      (List.intercalate_splitOn ',').symm, forall₂_strips_iff.mpr rfl, rfl⟩

theorem provides_text_iff {α : Type} {reads : String → α → Prop} {f : String → α} {a standard : α}
    (text : String) (hreads : ∀ t a, reads t a ↔ a = f t) (hstandard : f text = standard) :
    Provides reads standard found a ↔ ∃ t, textOption text found = some t ∧ a = f t := by
  cases found with
  | absent => simp [Provides, textOption, hstandard]
  | unreadable => simp [Provides, textOption]
  | value t => simp [Provides, textOption, hreads]

theorem provides_flag_iff {b standard : Bool} :
    Provides Means standard found b ↔ flagOption standard found = some b := by
  cases found with
  | absent => simp [Provides, flagOption, eq_comm]
  | unreadable => simp [Provides, flagOption]
  | value t => simp only [Provides, flagOption, means_iff]

theorem ofIni?_iff (hsec : ini.hasSection sectionName = true) :
    ofIni? ini = some s ↔ Provided ini s := by
  have hlevel : Provides NamesLevel "WARNING" (ini.get sectionName "log_level") s.logLevel ↔ _ :=
    provides_text_iff "WARNING" (fun _ _ => namesLevel_iff) (by decide)
  have hexposed : Provides Lists standardMembers (ini.get sectionName "exposed_members.csv") s.exposed ↔ _ :=
    provides_text_iff (",".intercalate standardMembers) (fun _ _ => lists_iff) (by decide)
  rw [ofIni?, if_pos hsec]
  simp only [Option.bind_eq_bind, Option.bind_eq_some_iff, Option.pure_def, Option.some.injEq]
  constructor
  · rintro ⟨members, hm, level, hl, reuses, hr, truncates, ht, rfl⟩
    exact ⟨hlevel.mpr ⟨level, hl, rfl⟩, provides_flag_iff.mpr hr, provides_flag_iff.mpr ht,
      hexposed.mpr ⟨members, hm, rfl⟩⟩
  · intro h
    obtain ⟨level, hl, hlevel⟩ := hlevel.mp h.logLevel
    obtain ⟨members, hm, hmembers⟩ := hexposed.mp h.exposed
    refine ⟨members, hm, level, hl, _, provides_flag_iff.mp h.reusesViews, _,
      provides_flag_iff.mp h.truncatesText, ?_⟩
    rw [← hlevel, ← hmembers]

theorem ofSource?_of_holds (h : source.Holds t) : ofSource? source = ofText? t := by
  cases source with
  | text s => rw [ofSource?, h]
  | file content =>
    obtain ⟨s, hs, rfl⟩ := h
    have hread : String.fromUTF8? ⟨content.toArray⟩ = some s := by
      rw [String.toUTF8_eq_toByteArray] at hs
      rw [← hs, String.fromUTF8?, dif_pos s.isValidUTF8]
      rfl
    rw [ofSource?, ofFile?, hread]
    rfl
  | nothing => exact h.elim

theorem holds_cases (source : Source) : (∃ t, source.Holds t) ∨ source = .nothing ∨
    ∃ content, source = .file content ∧ ∀ s : String, s.toUTF8 ≠ ⟨content.toArray⟩ := by
  cases source with
  | text s => exact .inl ⟨s, rfl⟩
  | nothing => exact .inr (.inl rfl)
  | file content =>
    by_cases h : ∃ s : String, s.toUTF8 = ⟨content.toArray⟩
    · obtain ⟨s, hs⟩ := h
      exact .inl ⟨_, s, hs, rfl⟩
    · exact .inr (.inr ⟨content, rfl, fun s hs => h ⟨s, hs⟩⟩)

theorem Source.Supplies.ofSource? (h : source.Supplies s) : ofSource? source = some s := by
  cases h with
  | nothing => rfl
  | sectionless ht hini hsec =>
    rw [ofSource?_of_holds ht, ofText?, hini, Option.bind_some, ofIni?, hsec]
    rfl
  | «section» ht hini hsec hs =>
    rw [ofSource?_of_holds ht, ofText?, hini, Option.bind_some]
    exact (ofIni?_iff hsec).mpr hs

theorem provides_or {α : Type} {reads : String → α → Prop} (found : Ini.Found) (standard : α)
    (hreads : ∀ t, ∃ a, reads t a) :
    (∃ a, Provides reads standard found a) ∨ found = .unreadable := by
  cases found with
  | absent => exact .inl ⟨standard, rfl⟩
  | unreadable => exact .inr rfl
  | value t => exact .inl (hreads t)

theorem provides_flag_or (found : Ini.Found) : (∃ b, Provides Means false found b) ∨
    found = .unreadable ∨ ∃ word, found = .value word ∧ ∀ b, ¬ Means word b := by
  cases found with
  | absent => exact .inl ⟨false, rfl⟩
  | unreadable => exact .inr (.inl rfl)
  | value word =>
    by_cases h : ∃ b, Means word b
    · exact .inl h
    · exact .inr (.inr ⟨word, rfl, fun b hb => h ⟨b, hb⟩⟩)

theorem provided_or (ini : Ini) : (∃ s, Provided ini s) ∨
    (∃ key ∈ keys, ini.get sectionName key = .unreadable) ∨
    ∃ key ∈ flagKeys, ∃ word, ini.get sectionName key = .value word ∧ ∀ b, ¬ Means word b := by
  rcases provides_flag_or (ini.get sectionName "identity_cache") with ⟨reuses, hreuses⟩ | h | h
  · rcases provides_flag_or (ini.get sectionName "truncate_strings") with ⟨truncates, htruncates⟩ | h | h
    · rcases provides_or (ini.get sectionName "log_level") "WARNING"
        fun t => ⟨_, namesLevel_iff.mpr rfl⟩ with ⟨level, hlevel⟩ | h
      · rcases provides_or (ini.get sectionName "exposed_members.csv") standardMembers
          fun t => ⟨_, lists_iff.mpr rfl⟩ with ⟨members, hmembers⟩ | h
        · exact .inl ⟨⟨level, reuses, truncates, members⟩, hlevel, hreuses, htruncates, hmembers⟩
        · exact .inr (.inl ⟨_, by decide, h⟩)
      · exact .inr (.inl ⟨_, by decide, h⟩)
    · exact .inr (.inl ⟨_, by decide, h⟩)
    · exact .inr (.inr ⟨_, by decide, h⟩)
  · exact .inr (.inl ⟨_, by decide, h⟩)
  · exact .inr (.inr ⟨_, by decide, h⟩)

theorem Provided.readable {key : String} (h : Provided ini s) (hkey : key ∈ keys) :
    ini.get sectionName key ≠ .unreadable := by
  intro hget
  simp only [keys, flagKeys, List.cons_append, List.nil_append, List.mem_cons, List.not_mem_nil,
    or_false] at hkey
  rcases hkey with rfl | rfl | rfl | rfl
  · exact absurd h.reusesViews (by rw [hget]; exact not_false)
  · exact absurd h.truncatesText (by rw [hget]; exact not_false)
  · exact absurd h.logLevel (by rw [hget]; exact not_false)
  · exact absurd h.exposed (by rw [hget]; exact not_false)

theorem Provided.means {key : String} (h : Provided ini s) (hkey : key ∈ flagKeys)
    (hword : ini.get sectionName key = .value word) : ∃ b, Means word b := by
  simp only [flagKeys, List.mem_cons, List.not_mem_nil, or_false] at hkey
  rcases hkey with rfl | rfl
  · have hb := h.reusesViews
    rw [hword] at hb
    exact ⟨_, hb⟩
  · have hb := h.truncatesText
    rw [hword] at hb
    exact ⟨_, hb⟩

theorem supplies_or_fails (source : Source) : (∃ s, source.Supplies s) ∨ source.Fails := by
  rcases holds_cases source with ⟨t, ht⟩ | rfl | ⟨content, rfl, h⟩
  · cases hini : Ini.parse? t with
    | none => exact .inr (.grammar ht hini)
    | some ini =>
      cases hsec : ini.hasSection sectionName with
      | false => exact .inl ⟨_, .sectionless ht hini hsec⟩
      | true =>
        rcases provided_or ini with ⟨s, hs⟩ | ⟨key, hkey, h⟩ | ⟨key, hkey, word, hword, h⟩
        · exact .inl ⟨s, .section ht hini hsec hs⟩
        · exact .inr (.reference ht hini hsec hkey h)
        · exact .inr (.flag ht hini hsec hkey hword h)
  · exact .inl ⟨_, .nothing⟩
  · exact .inr (.encoding h)

theorem ofSource?_of_not_provided {t : String} (ht : source.Holds t) (hini : Ini.parse? t = some ini)
    (hsec : ini.hasSection sectionName = true) (h : ∀ s, ¬ Provided ini s) :
    ofSource? source = none := by
  rw [ofSource?_of_holds ht, ofText?, hini, Option.bind_some]
  exact Option.eq_none_iff_forall_ne_some.mpr fun s hs => h s ((ofIni?_iff hsec).mp hs)

theorem Source.Fails.ofSource? (h : source.Fails) : ofSource? source = none := by
  cases h with
  | encoding h =>
    rw [Settings.ofSource?, ofFile?, String.fromUTF8?, dif_neg]
    · rfl
    · exact fun hvalid => h (String.fromUTF8 _ hvalid) String.toUTF8_eq_toByteArray
  | grammar ht h =>
    rw [ofSource?_of_holds ht, ofText?, h]
    rfl
  | reference ht hini hsec hkey h =>
    exact ofSource?_of_not_provided ht hini hsec fun s hs => hs.readable hkey h
  | flag ht hini hsec hkey hword h =>
    refine ofSource?_of_not_provided ht hini hsec fun s hs => ?_
    obtain ⟨b, hb⟩ := hs.means hkey hword
    exact h b hb

theorem logEvent_settingsUnreadable (w : World) : logEvent .settingsUnreadable w = .ok () { w with
    log := if w.threshold ≤ 30 then w.log.push .settingsUnreadable else w.log } := by
  show EStateM.Result.ok () (if w.threshold ≤ 30 then _ else w) = _
  by_cases h : w.threshold ≤ 30
  · rw [if_pos h, if_pos h]
  · rw [if_neg h, if_neg h]

/-- Settings are read as a whole. Nothing is logged if the source supplies all of them. Otherwise they
are all standard, and that is one warning in the log. -/
theorem read_whole (source : Source) (w : World) :
    (∃ s, source.Supplies s ∧ (∀ s', source.Supplies s' → s' = s) ∧ ¬ source.Fails ∧
      read source w = .ok s w) ∨
    (source.Fails ∧ (∀ s, ¬ source.Supplies s) ∧
      read source w = .ok standard { w with
        log := if w.threshold ≤ 30 then w.log.push .settingsUnreadable else w.log } ∧
      Event.settingsUnreadable.severity = .warning ∧
      Event.settingsUnreadable.channel = "jsbridge.config") := by
  rcases supplies_or_fails source with ⟨s, hs⟩ | hfails
  · have hsome := hs.ofSource?
    refine .inl ⟨s, hs, fun s' hs' => ?_, fun hfails => ?_, ?_⟩
    · exact Option.some.inj (hs'.ofSource?.symm.trans hsome)
    · rw [hfails.ofSource?] at hsome
      cases hsome
    · rw [read, hsome]
      rfl
  · have hnone := hfails.ofSource?
    refine .inr ⟨hfails, fun s hs => ?_, ?_, rfl, rfl⟩
    · rw [hs.ofSource?] at hnone
      cases hnone
    · rw [read, hnone]
      exact bind_apply_of_ok _ (logEvent_settingsUnreadable w)

end
end Settings
end ScriptedArrays
