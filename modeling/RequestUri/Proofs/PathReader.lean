import RequestUri.Proofs.PathText
import RequestUri.Proofs.Scanner

/-! Reading the path of a resource: at each slash a new segment begins, and each segment names a
resource, perhaps with a key, or a type. -/

namespace RequestUri

/-- The value of a key as its text shows it. -/
inductive KeyValue where
  | string (s : String)
  /-- A value without quotes. -/
  | bare (text : String)
deriving DecidableEq

def KeyValue.text : KeyValue → String
  | string s => Text.quote (Text.pathSafe s)
  | bare text => text

structure KeyEntry where
  property : Option String
  value : KeyValue
deriving DecidableEq

def KeyEntry.text (e : KeyEntry) : String :=
  match e.property with
  | none => e.value.text
  | some name => name ++ "=" ++ e.value.text

inductive Segment where
  | resource (name : String) (key : List KeyEntry)
  | type (name : String)

def Segment.text : Segment → String
  | resource name [] => name
  | resource name key => name ++ "(" ++ String.intercalate "," (key.map KeyEntry.text) ++ ")"
  | type name => name

/-- What a path says about one resource. -/
structure Step where
  name : String
  key : List KeyEntry
  cast : Option String
deriving DecidableEq

def Step.segments (s : Step) : List Segment := .resource s.name s.key :: s.cast.toList.map .type

def stepsText (steps : List Step) : String :=
  String.intercalate "/" ((steps.flatMap Step.segments).map Segment.text)

theorem stepsText_singleton (s : Step) :
    stepsText [s] = String.intercalate "/" (s.segments.map Segment.text) := by
  rw [stepsText, List.flatMap_singleton]

theorem stepsText_append {steps more : List Step} (h : steps ≠ []) (hm : more ≠ []) :
    stepsText (steps ++ more) = stepsText steps ++ "/" ++ stepsText more := by
  have hsegments : ∀ {steps : List Step}, steps ≠ [] →
      (steps.flatMap Step.segments).map Segment.text ≠ [] := by
    intro steps hne
    cases steps with
    | nil => exact absurd rfl hne
    | cons s steps => simp [Step.segments]
  rw [stepsText, List.flatMap_append, List.map_append,
    String.intercalate_append_of_ne_nil (hsegments h) (hsegments hm)]
  rfl

def IsDotted (s : String) : Prop :=
  ∃ first next rest, (∀ name ∈ first :: next :: rest, IsWord name.toList) ∧
    s = String.intercalate "." (first :: next :: rest)

def isBareChar (c : Char) : Bool := isWordChar c || c == '-'

def KeyValue.IsReadable : KeyValue → Prop
  | string _ => True
  | bare text => ∀ c ∈ text.toList, isBareChar c

structure KeyEntry.IsReadable (e : KeyEntry) : Prop where
  property : ∀ name ∈ e.property, IsWord name.toList
  value : e.value.IsReadable

structure Step.IsReadable (s : Step) : Prop where
  name : IsWord s.name.toList
  key : ∀ e ∈ s.key, e.IsReadable
  cast : ∀ type ∈ s.cast, IsDotted type

def Segment.IsReadable : Segment → Prop
  | resource name key => IsWord name.toList ∧ ∀ e ∈ key, e.IsReadable
  | type name => IsDotted name

theorem Step.IsReadable.segments {s : Step} (h : s.IsReadable) {segment : Segment}
    (hs : segment ∈ s.segments) : segment.IsReadable := by
  rcases List.mem_cons.1 hs with rfl | hs
  · exact ⟨h.name, h.key⟩
  · obtain ⟨type, ht, rfl⟩ := List.mem_map.1 hs
    exact h.cast type (Option.mem_toList.1 ht)

inductive KeyMode where
  | bare (property : Option String) (text : List Char)
  | string (property : Option String) (s : List Char)
  /-- In a string and behind a quote, which ends it unless another quote follows. -/
  | quote (property : Option String) (s : List Char)
  | closed

namespace KeyMode

def delimit (e : KeyEntry) : Char → Option (List KeyEntry × KeyMode)
  | ',' => some ([e], bare none [])
  | ')' => some ([e], closed)
  | _ => none

def step : KeyMode → Char → Option (List KeyEntry × KeyMode)
  | bare property text, c =>
    if isBareChar c then some ([], bare property (text ++ [c]))
    else if c = '=' then some ([], bare (some (String.ofList text)) [])
    else if c = '\'' then some ([], string property [])
    else delimit ⟨property, .bare (String.ofList text)⟩ c
  | string property s, c =>
    some ([], if c = '\'' then quote property s else string property (s ++ [c]))
  | quote property s, c =>
    if c = '\'' then some ([], string property (s ++ ['\'']))
    else delimit ⟨property, .string (String.ofList (Text.unescape s))⟩ c
  | closed, _ => none

def read : KeyMode → List Char → Option (List KeyEntry)
  | closed, [] => some []
  | _, [] => none
  | m, c :: cs => (m.step c).bind fun (es, m) => (read m cs).map (es ++ ·)

theorem read_cons (m : KeyMode) (c : Char) (cs : List Char) :
    m.read (c :: cs) = (m.step c).bind fun (es, m) => (m.read cs).map (es ++ ·) := by
  cases m <;> rfl

theorem read_quiet {m m' : KeyMode} {c : Char} (h : m.step c = some ([], m')) (cs : List Char) :
    m.read (c :: cs) = m'.read cs := by
  rw [read_cons, h]
  simp

theorem read_emit {m m' : KeyMode} {c : Char} {e : KeyEntry} (h : m.step c = some ([e], m'))
    (cs : List Char) : m.read (c :: cs) = (m'.read cs).map (e :: ·) := by
  rw [read_cons, h]
  rfl

theorem read_bare {w : List Char} (hw : ∀ c ∈ w, isBareChar c) (property : Option String)
    (text rest : List Char) :
    (bare property text).read (w ++ rest) = (bare property (text ++ w)).read rest := by
  induction w generalizing text with
  | nil => simp
  | cons c w ih =>
    have hc : (bare property text).step c = some ([], bare property (text ++ [c])) := by
      rw [step, if_pos (hw c List.mem_cons_self)]
    rw [List.cons_append, read_quiet hc, ih fun d hd => hw d (List.mem_cons_of_mem c hd),
      List.append_assoc]
    rfl

theorem read_doubleQuotes (property : Option String) (s cs rest : List Char) :
    (string property s).read (Text.doubleQuotes cs ++ rest) =
      (string property (s ++ cs)).read rest := by
  induction cs generalizing s with
  | nil => simp [Text.doubleQuotes]
  | cons c cs ih =>
    have hr := ih (s ++ [c])
    rw [List.append_assoc] at hr
    by_cases h : c = '\''
    · subst h
      have hq : (string property s).step '\'' = some ([], quote property s) := rfl
      have hs : (quote property s).step '\'' = some ([], string property (s ++ ['\''])) := rfl
      rw [Text.doubleQuotes, if_pos rfl, List.cons_append, List.cons_append, read_quiet hq,
        read_quiet hs, hr]
      rfl
    · have hs : (string property s).step c = some ([], string property (s ++ [c])) := by
        rw [step, if_neg h]
      rw [Text.doubleQuotes, if_neg h, List.cons_append, read_quiet hs, hr]
      rfl

def behind (property : Option String) : KeyValue → KeyMode
  | .string s => quote property (Text.pathSafe s).toList
  | .bare text => bare property text.toList

theorem step_behind (property : Option String) (v : KeyValue) {c : Char} (h : c = ',' ∨ c = ')') :
    (behind property v).step c = delimit ⟨property, v⟩ c := by
  cases v with
  | string s =>
    have hs : (quote property (Text.pathSafe s).toList).step c = delimit
        ⟨property, .string (String.ofList (Text.unescape (Text.pathSafe s).toList))⟩ c := by
      rcases h with rfl | rfl <;> rfl
    rw [behind, hs, Text.unescape_pathSafe, String.ofList_toList]
  | bare text =>
    have hs : (bare property text.toList).step c =
        delimit ⟨property, .bare (String.ofList text.toList)⟩ c := by
      rcases h with rfl | rfl <;> rfl
    rw [behind, hs, String.ofList_toList]

theorem read_value {v : KeyValue} (h : v.IsReadable) (property : Option String)
    (rest : List Char) :
    (bare property []).read (v.text.toList ++ rest) = (behind property v).read rest := by
  cases v with
  | bare text => exact read_bare h property [] rest
  | string s =>
    have hq : (Text.quote (Text.pathSafe s)).toList ++ rest =
        '\'' :: (Text.doubleQuotes (Text.pathSafe s).toList ++ '\'' :: rest) := by
      simp [Text.quote]
    have henter : (bare property []).step '\'' = some ([], string property []) := rfl
    have hleave : (string property (Text.pathSafe s).toList).step '\'' =
        some ([], quote property (Text.pathSafe s).toList) := rfl
    rw [KeyValue.text, hq, read_quiet henter, read_doubleQuotes, List.nil_append,
      read_quiet hleave]
    rfl

theorem read_entry {e : KeyEntry} (h : e.IsReadable) (rest : List Char) :
    (bare none []).read (e.text.toList ++ rest) = (behind e.property e.value).read rest := by
  rw [KeyEntry.text]
  cases hp : e.property with
  | none => exact read_value h.value none rest
  | some name =>
    have hname : ∀ c ∈ name.toList, isBareChar c := by
      intro c hc
      have hw := (h.property name (by rw [hp]; rfl)).2 c hc
      simp [isBareChar, hw]
    have ht : (name ++ "=" ++ e.value.text).toList ++ rest =
        name.toList ++ '=' :: (e.value.text.toList ++ rest) := by
      simp
    have hequals : (bare none name.toList).step '=' =
        some ([], bare (some (String.ofList name.toList)) []) := rfl
    rw [String.ofList_toList] at hequals
    dsimp only
    rw [ht, read_bare hname, List.nil_append, read_quiet hequals, read_value h.value]

theorem read_entries {es : List KeyEntry} (hne : es ≠ []) (h : ∀ e ∈ es, e.IsReadable) :
    (bare none []).read ((String.intercalate "," (es.map KeyEntry.text)).toList ++ [')']) =
      some es := by
  induction es with
  | nil => exact absurd rfl hne
  | cons e es ih =>
    have he := h e List.mem_cons_self
    cases es with
    | nil =>
      have hclose : (behind e.property e.value).step ')' = some ([e], closed) :=
        step_behind e.property e.value (.inr rfl)
      rw [List.map_singleton, String.intercalate_singleton, read_entry he, read_emit hclose]
      rfl
    | cons next es =>
      have hcomma : (behind e.property e.value).step ',' = some ([e], bare none []) :=
        step_behind e.property e.value (.inl rfl)
      have ht : (String.intercalate "," ((e :: next :: es).map KeyEntry.text)).toList ++ [')'] =
          e.text.toList ++ ',' ::
            ((String.intercalate "," ((next :: es).map KeyEntry.text)).toList ++ [')']) := by
        simp [String.intercalate_cons_cons]
      rw [ht, read_entry he, read_emit hcomma,
        ih (List.cons_ne_nil next es) fun e he => h e (List.mem_cons_of_mem _ he)]
      rfl

end KeyMode

namespace Segment

/-- A point behind the first word makes a segment the name of a type. -/
def read (cs : List Char) : Option Segment :=
  match cs.dropWhile isWordChar with
  | [] => some (resource (String.ofList cs) [])
  | '(' :: rest =>
    ((KeyMode.bare none []).read rest).map (resource (String.ofList (cs.takeWhile isWordChar)))
  | '.' :: _ => some (type (String.ofList cs))
  | _ => none

theorem read_text {s : Segment} (h : s.IsReadable) : read s.text.toList = some s := by
  match s, h with
  | resource name [], ⟨hname, _⟩ =>
    have hd : name.toList.dropWhile isWordChar = [] := by
      rw [← List.append_nil name.toList, List.dropWhile_append_of_pos hname.2]
      rfl
    rw [text, read, hd, String.ofList_toList]
  | resource name (e :: es), ⟨hname, hkey⟩ =>
    have ht : (text (resource name (e :: es))).toList = name.toList ++
        '(' :: ((String.intercalate "," ((e :: es).map KeyEntry.text)).toList ++ [')']) := by
      simp [text]
    have hd : ∀ rest, (name.toList ++ '(' :: rest).dropWhile isWordChar = '(' :: rest := by
      intro rest
      rw [List.dropWhile_append_of_pos hname.2]
      rfl
    have hw : ∀ rest, (name.toList ++ '(' :: rest).takeWhile isWordChar = name.toList := by
      intro rest
      rw [List.takeWhile_append_of_pos hname.2]
      exact List.append_nil name.toList
    rw [ht, read, hd]
    change Option.map (resource (String.ofList _)) ((KeyMode.bare none []).read _) = _
    rw [hw, String.ofList_toList, KeyMode.read_entries (List.cons_ne_nil e es) hkey]
    rfl
  | type name, ⟨first, next, rest, hwords, hname⟩ =>
    have hd : name.toList.dropWhile isWordChar =
        '.' :: (String.intercalate "." (next :: rest)).toList := by
      rw [hname, String.intercalate_cons_cons, String.append_assoc, String.toList_append,
        List.dropWhile_append_of_pos (hwords first List.mem_cons_self).2]
      simp only [String.toList_append]
      rfl
    rw [text, read, hd, String.ofList_toList]
    rfl

theorem mapM_read {segments : List Segment} (h : ∀ s ∈ segments, s.IsReadable) :
    (segments.map fun s => s.text.toList).mapM read = some segments := by
  induction segments with
  | nil => rfl
  | cons s segments ih =>
    rw [List.map_cons, List.mapM_cons, read_text (h s List.mem_cons_self),
      ih fun s hs => h s (List.mem_cons_of_mem _ hs)]
    rfl

theorem slash_not_mem_word {w : String} (h : IsWord w.toList) : '/' ∉ w.toList := by
  intro hin
  have hw := h.2 '/' hin
  exact absurd hw (by decide)

theorem slash_not_mem_entry {e : KeyEntry} (h : e.IsReadable) : '/' ∉ e.text.toList := by
  have hv : '/' ∉ e.value.text.toList := by
    cases hv : e.value with
    | string s =>
      rw [KeyValue.text, ← Text.pathSafe_quote]
      exact Text.not_mem_pathSafe (.inl rfl) (Text.quote s)
    | bare text =>
      intro hin
      have hr := h.value
      rw [hv] at hr
      exact absurd (hr '/' hin) (by decide)
  rw [KeyEntry.text]
  cases hp : e.property with
  | none => exact hv
  | some name =>
    have hn := slash_not_mem_word (h.property name (by rw [hp]; rfl))
    simp [hn, hv]

theorem slash_not_mem {s : Segment} (h : s.IsReadable) : '/' ∉ s.text.toList := by
  match s, h with
  | resource name [], ⟨hname, _⟩ => exact slash_not_mem_word hname
  | resource name (e :: es), ⟨hname, hkey⟩ =>
    have hentries : '/' ∉ (String.intercalate "," ((e :: es).map KeyEntry.text)).toList := by
      rw [Text.mem_intercalate (by decide)]
      rintro ⟨text, ht, hin⟩
      obtain ⟨entry, he, rfl⟩ := List.mem_map.1 ht
      exact slash_not_mem_entry (hkey entry he) hin
    have hn := slash_not_mem_word hname
    rw [text]
    · simp only [String.toList_append, List.mem_append, hn, hentries]
      decide
    · simp
  | type name, ⟨first, next, rest, hwords, hname⟩ =>
    rw [text, hname, Text.mem_intercalate (by decide)]
    rintro ⟨word, hw, hin⟩
    exact slash_not_mem_word (hwords word hw) hin

end Segment

namespace Step

/-- A type belongs to the resource before it. -/
def collect : List Segment → Option (List Step)
  | [] => some []
  | .resource name key :: .type cast :: rest => (collect rest).map (⟨name, key, some cast⟩ :: ·)
  | .resource name key :: rest => (collect rest).map (⟨name, key, none⟩ :: ·)
  | .type _ :: _ => none

theorem collect_segments (steps : List Step) : collect (steps.flatMap segments) = some steps := by
  induction steps with
  | nil => rfl
  | cons s steps ih =>
    obtain ⟨name, key, cast⟩ := s
    cases cast with
    | some cast => simp [segments, collect, ih]
    | none =>
      cases steps with
      | nil => rfl
      | cons next steps => simp_all [segments, collect]

end Step

def readSteps (base uri : String) : Option (List Step) :=
  (((uri.toList.drop base.length).splitOn '/').mapM Segment.read).bind Step.collect

theorem readSteps_stepsText (base : String) {steps : List Step} (hne : steps ≠ [])
    (h : ∀ s ∈ steps, s.IsReadable) : readSteps base (base ++ stepsText steps) = some steps := by
  have hsegments : ∀ s ∈ steps.flatMap Step.segments, s.IsReadable := by
    intro s hs
    obtain ⟨step, hin, hs⟩ := List.mem_flatMap.1 hs
    exact (h step hin).segments hs
  have hdrop : (base ++ stepsText steps).toList.drop base.length = (stepsText steps).toList := by
    rw [String.toList_append, ← String.length_toList]
    exact List.drop_left
  have hsplit : (stepsText steps).toList.splitOn '/' =
      (steps.flatMap Step.segments).map fun s => s.text.toList := by
    rw [stepsText, String.toList_intercalate, List.map_map]
    apply List.splitOn_intercalate
    · intro cs hcs
      obtain ⟨s, hs, rfl⟩ := List.mem_map.1 hcs
      exact Segment.slash_not_mem (hsegments s hs)
    · cases steps with
      | nil => exact absurd rfl hne
      | cons s steps => simp [Step.segments]
  rw [readSteps, hdrop, hsplit, Segment.mapM_read hsegments]
  exact Step.collect_segments steps

end RequestUri
