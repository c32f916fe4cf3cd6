import Cordn.Config
import Cordn.Lib.Trim

/-!
# Environment files

Before it reads its configuration the server sets what `.env` and then
`.env.local` assign, as far as the process has not set it. Text is a list of
characters; a file that is missing or is no text is `none`.
-/

set_option autoImplicit false

namespace Cordn.Config
open Trim

def stripCarriageReturn (line : List Char) : List Char :=
  if line.getLast? = some '\r' then line.dropLast else line

/-- Split at the ends of lines. The last line needs none. -/
def lines (content : List Char) : List (List Char) :=
  let pieces := content.splitOn '\n'
  let last := (pieces.getLast?).getD []
  pieces.dropLast.map stripCarriageReturn ++ if last = [] then [] else [last]

def trimmed (text : List Char) : List Char := Trim.trim isWhiteSpace text

def exportPrefix : List Char := ['e', 'x', 'p', 'o', 'r', 't', ' ']

def stripExport (text : List Char) : List Char :=
  if exportPrefix.isPrefixOf text then trimmed (text.drop 7) else text

def isKeyChar (c : Char) : Bool := c.isAlphanum || c == '_'

def isKey : List Char → Bool
  | [] => false
  | c::rest => (c.isAlpha || c == '_') && (c::rest).all isKeyChar

def doubleQuote : Char := '\x22'

def singleQuote : Char := '\x27'

def quotedBy (q : Char) (value : List Char) : Bool :=
  value.head? == some q && value.getLast? == some q && decide (2 ≤ value.length)

def unquote (value : List Char) : List Char :=
  if quotedBy doubleQuote value || quotedBy singleQuote value then value.tail.dropLast else value

def readAssignment (normalized : List Char) : Option (String × String) :=
  if '=' ∉ normalized ∨ normalized.head? = some '=' then none
  else
    let key := trimmed (normalized.takeWhile (fun c => c != '='))
    let value := trimmed (normalized.dropWhile (fun c => c != '=')).tail
    if isKey key then some (String.ofList key, String.ofList (unquote value)) else none

def parseEnvAssignment (line : List Char) : Option (String × String) :=
  let text := trimmed line
  if text = [] ∨ text.head? = some '#' then none else readAssignment (stripExport text)

def setVar (env : Env) (key value : String) : Option Env :=
  if '\x00' ∈ value.toList then none else some (env.insert key value)

def setIfUnset (env : Env) (assignment : String × String) : Option Env :=
  if (env.get? assignment.1).isNone then setVar env assignment.1 assignment.2 else some env

def loadEnvFile (file : Option (List Char)) (env : Env) : Option Env :=
  match file with
  | none => some env
  | some content => (lines content).foldlM (fun env line =>
      match parseEnvAssignment line with
      | none => some env
      | some assignment => setIfUnset env assignment) env

def loadEnvFiles (dotEnv dotEnvLocal : Option (List Char)) (env : Env) : Option Env := do
  loadEnvFile dotEnvLocal (← loadEnvFile dotEnv env)

def load (dotEnv dotEnvLocal : Option (List Char)) (env : Env) :
    Option (Except ConfigError ServerConfig) :=
  (loadEnvFiles dotEnv dotEnvLocal env).map readServerConfig

example : parseEnvAssignment "export BAZ = \x22hi\x22".toList = some ("BAZ", "hi") := by
  decide +kernel

inductive Writes : List Char → List Char → Prop where
  | plain {value : List Char} (htight : Tight isWhiteSpace value)
      (h : quotedBy doubleQuote value = false) (h' : quotedBy singleQuote value = false) :
      Writes value value
  | quoted {q : Char} (hq : q = doubleQuote ∨ q = singleQuote) (value : List Char) :
      Writes value (q::(value ++ [q]))

/-- The lines that assign the value to the key. A variable that is called `export` is not
followed by a blank. -/
inductive AssignmentLine (key value : List Char) : List Char → Prop where
  | bare {lead gap pad written trail : List Char} (hlead : Blank isWhiteSpace lead)
      (hkey : isKey key = true) (hgap : Blank isWhiteSpace gap) (hpad : Blank isWhiteSpace pad)
      (hwritten : Writes value written) (htrail : Blank isWhiteSpace trail)
      (h : ¬exportPrefix <+: key ++ gap) :
      AssignmentLine key value (lead ++ (key ++ gap ++ '='::(pad ++ written)) ++ trail)
  | exported {lead rest gap pad written trail : List Char} (hlead : Blank isWhiteSpace lead)
      (hrest : Blank isWhiteSpace rest) (hkey : isKey key = true) (hgap : Blank isWhiteSpace gap)
      (hpad : Blank isWhiteSpace pad) (hwritten : Writes value written)
      (htrail : Blank isWhiteSpace trail) :
      AssignmentLine key value
        (lead ++ (exportPrefix ++ rest ++ (key ++ gap ++ '='::(pad ++ written))) ++ trail)

theorem quotedBy_iff {q : Char} {value : List Char} :
    quotedBy q value = true ↔ ∃ inner, value = q::(inner ++ [q]) := by
  constructor
  · intro h
    simp only [quotedBy, Bool.and_eq_true, beq_iff_eq, decide_eq_true_eq] at h
    obtain ⟨⟨hhead, hlast⟩, hlength⟩ := h
    cases value with
    | nil => cases hhead
    | cons c rest =>
      obtain rfl : c = q := Option.some.inj hhead
      rcases List.eq_nil_or_concat' rest with rfl | ⟨inner, d, rfl⟩
      · simp at hlength
      · rw [← List.cons_append, List.getLast?_concat] at hlast
        obtain rfl := Option.some.inj hlast
        exact ⟨inner, rfl⟩
  · rintro ⟨inner, rfl⟩
    rw [quotedBy, ← List.cons_append, List.getLast?_concat]
    simp

theorem quote_tight {q : Char} (hq : q = doubleQuote ∨ q = singleQuote) (value : List Char) :
    Tight isWhiteSpace (q::(value ++ [q])) := by
  have hblank : isWhiteSpace q = false := by
    rcases hq with rfl | rfl <;> rfl
  constructor
  · intro c hc
    obtain rfl := Option.some.inj hc
    exact hblank
  · intro c hc
    rw [← List.cons_append, List.getLast?_concat] at hc
    obtain rfl := Option.some.inj hc
    exact hblank

theorem unquote_quoted {q : Char} (hq : q = doubleQuote ∨ q = singleQuote) (value : List Char) :
    unquote (q::(value ++ [q])) = value := by
  have hquoted : quotedBy q (q::(value ++ [q])) = true := quotedBy_iff.mpr ⟨value, rfl⟩
  have hone : (quotedBy doubleQuote (q::(value ++ [q])) ||
      quotedBy singleQuote (q::(value ++ [q]))) = true := by
    rcases hq with rfl | rfl <;> simp [hquoted]
  rw [unquote, if_pos hone, List.tail_cons, List.dropLast_concat]

theorem writes_iff (value written : List Char) :
    Writes value written ↔ Tight isWhiteSpace written ∧ unquote written = value := by
  constructor
  · intro h
    cases h with
    | plain htight h h' => exact ⟨htight, by simp [unquote, h, h']⟩
    | quoted hq => exact ⟨quote_tight hq value, unquote_quoted hq value⟩
  · rintro ⟨htight, rfl⟩
    cases hd : quotedBy doubleQuote written with
    | true =>
      obtain ⟨inner, rfl⟩ := quotedBy_iff.mp hd
      rw [unquote_quoted (Or.inl rfl)]
      exact .quoted (Or.inl rfl) inner
    | false =>
      cases hs : quotedBy singleQuote written with
      | true =>
        obtain ⟨inner, rfl⟩ := quotedBy_iff.mp hs
        rw [unquote_quoted (Or.inr rfl)]
        exact .quoted (Or.inr rfl) inner
      | false =>
        have hplain : unquote written = written := by simp [unquote, hd, hs]
        rw [hplain]
        exact .plain htight hd hs

theorem keyChar_range {c : Char} (h : isKeyChar c = true) :
    48 ≤ c.toNat ∧ c.toNat ≤ 57 ∨ 65 ≤ c.toNat ∧ c.toNat ≤ 122 := by
  rcases Bool.or_eq_true_iff.mp h with hletter | hunderscore
  · have hcases : c.isAlpha = true ∨ c.isDigit = true := Bool.or_eq_true_iff.mp hletter
    rcases hcases with halpha | hdigit
    · have hcase : c.isUpper = true ∨ c.isLower = true := Bool.or_eq_true_iff.mp halpha
      rcases hcase with hupper | hlower
      · have hrange : 65 ≤ c.toNat ∧ c.toNat ≤ 90 := of_decide_eq_true hupper
        omega
      · obtain ⟨hfrom, hto⟩ := Bool.and_eq_true_iff.mp hlower
        have hrange : 97 ≤ c.toNat ∧ c.toNat ≤ 122 :=
          ⟨of_decide_eq_true hfrom, of_decide_eq_true hto⟩
        omega
    · obtain ⟨hfrom, hto⟩ := Bool.and_eq_true_iff.mp hdigit
      exact Or.inl ⟨of_decide_eq_true hfrom, of_decide_eq_true hto⟩
  · obtain rfl : c = '_' := eq_of_beq hunderscore
    exact Or.inr ⟨by decide, by decide⟩

theorem keyChar_not_blank {c : Char} (h : isKeyChar c = true) :
    isWhiteSpace c = false ∧ c ≠ '=' ∧ c ≠ '#' := by
  have hrange := keyChar_range h
  refine ⟨?_, ?_, ?_⟩
  · simp only [isWhiteSpace, decide_eq_false_iff_not]
    omega
  · rintro rfl
    revert hrange
    decide
  · rintro rfl
    revert hrange
    decide

theorem isKey_chars {key : List Char} (h : isKey key = true) :
    key ≠ [] ∧ ∀ c ∈ key, isKeyChar c = true := by
  cases key with
  | nil => cases h
  | cons c rest =>
    simp only [isKey, Bool.and_eq_true] at h
    exact ⟨by simp, List.all_eq_true.mp h.2⟩

theorem isKey_tight {key : List Char} (h : isKey key = true) : Tight isWhiteSpace key := by
  obtain ⟨-, hchars⟩ := isKey_chars h
  exact ⟨fun c hc => (keyChar_not_blank (hchars c (List.mem_of_head? hc))).1,
    fun c hc => (keyChar_not_blank (hchars c (List.mem_of_getLast? hc))).1⟩

theorem separator_not_mem {key gap : List Char} (hkey : isKey key = true)
    (hgap : Blank isWhiteSpace gap) : ∀ c ∈ key ++ gap, (c != '=') = true := by
  intro c hc
  rw [bne_iff_ne]
  rintro rfl
  rcases List.mem_append.mp hc with h | h
  · exact (keyChar_not_blank ((isKey_chars hkey).2 _ h)).2.1 rfl
  · have hblank := hgap _ h
    revert hblank
    decide

theorem split_separator {front : List Char} (h : ∀ c ∈ front, (c != '=') = true)
    (behind : List Char) :
    (front ++ '='::behind).takeWhile (fun c => c != '=') = front ∧
      (front ++ '='::behind).dropWhile (fun c => c != '=') = '='::behind := by
  constructor
  · rw [List.takeWhile_append_of_pos h]
    simp
  · rw [List.dropWhile_append_of_pos h]
    simp

theorem readAssignment_iff {text key value : List Char} (htight : Tight isWhiteSpace text) :
    readAssignment text = some (String.ofList key, String.ofList value) ↔
      ∃ gap pad written, isKey key = true ∧ Blank isWhiteSpace gap ∧ Blank isWhiteSpace pad ∧
        Writes value written ∧ text = key ++ gap ++ '='::(pad ++ written) := by
  constructor
  · intro h
    rw [readAssignment] at h
    split at h
    · cases h
    rename_i hnot
    push Not at hnot
    simp only at h
    split at h
    · rename_i hkey
      obtain ⟨front, behind, rfl, hfirst⟩ := List.eq_append_cons_of_mem hnot.1
      have hall : ∀ c ∈ front, (c != '=') = true := by
        intro c hc
        rw [bne_iff_ne]
        rintro rfl
        exact hfirst hc
      obtain ⟨hbefore, hafter⟩ := split_separator hall behind
      rw [hbefore] at hkey h
      rw [hafter, List.tail_cons] at h
      obtain ⟨hname, hvalue⟩ := Prod.mk.inj (Option.some.inj h)
      obtain rfl : trimmed front = key := String.ofList_injective hname
      obtain rfl : unquote (trimmed behind) = value := String.ofList_injective hvalue
      obtain ⟨a, gap, ha, hgap, -, hfront⟩ := trim_spec (p := isWhiteSpace) front
      obtain ⟨pad, b, hpad, hb, hwtight, hbehind⟩ := trim_spec (p := isWhiteSpace) behind
      -- nothing is trimmed off in front of the key and behind the value
      obtain rfl : a = [] := by
        rw [hfront, List.append_assoc a, List.append_assoc a] at htight
        exact htight.front ha
      obtain rfl : b = [] := by
        rw [hbehind, ← List.cons_append, ← List.append_assoc] at htight
        exact htight.back hb
      refine ⟨gap, pad, trimmed behind, hkey, hgap, hpad, (writes_iff _ _).mpr ⟨hwtight, rfl⟩, ?_⟩
      rw [List.nil_append] at hfront
      rw [List.append_nil] at hbehind
      exact congrArg₂ (fun x y => x ++ '='::y) hfront hbehind
    · cases h
  · rintro ⟨gap, pad, written, hkey, hgap, hpad, hwritten, rfl⟩
    obtain ⟨hwtight, hvalue⟩ := (writes_iff value written).mp hwritten
    obtain ⟨hfront, hbehind⟩ := split_separator (separator_not_mem hkey hgap) (pad ++ written)
    have hnil : Blank isWhiteSpace ([] : List Char) := by simp [Blank]
    have hname : trimmed (key ++ gap) = key := trim_eq hnil (isKey_tight hkey) hgap
    have htext : trimmed (pad ++ written) = written := by
      have h := trim_eq hpad hwtight hnil
      rwa [List.append_nil] at h
    obtain ⟨c, rest, rfl⟩ := List.exists_cons_of_ne_nil (isKey_chars hkey).1
    have hc : c ≠ '=' := (keyChar_not_blank ((isKey_chars hkey).2 c (by simp))).2.1
    rw [readAssignment, if_neg (by simp [hc])]
    simp only [hfront, hbehind, List.tail_cons, hname, htext, hkey, if_true, hvalue]

theorem assignment_tight {key pad written : List Char} (hkey : isKey key = true)
    (gap : List Char) (hwritten : Tight isWhiteSpace written) (hpad : written = [] → pad = []) :
    Tight isWhiteSpace (key ++ gap ++ '='::(pad ++ written)) := by
  obtain ⟨c, rest, rfl⟩ := List.exists_cons_of_ne_nil (isKey_chars hkey).1
  constructor
  · intro d hd
    obtain rfl := Option.some.inj hd
    exact (isKey_tight hkey).1 c rfl
  · intro d hd
    rcases List.eq_nil_or_concat' written with rfl | ⟨front, e, rfl⟩
    · rw [hpad rfl] at hd
      have hlast : (c::rest ++ gap ++ ['=']).getLast? = some d := hd
      rw [List.getLast?_concat] at hlast
      obtain rfl := Option.some.inj hlast
      rfl
    · have hlast : (c::rest ++ gap ++ '='::(pad ++ front) ++ [e]).getLast? = some d := by
        simpa using hd
      rw [List.getLast?_concat] at hlast
      obtain rfl := Option.some.inj hlast
      exact hwritten.2 e (by simp)

theorem settle {value pad written trail : List Char} (hpad : Blank isWhiteSpace pad)
    (hwritten : Writes value written) (htrail : Blank isWhiteSpace trail) :
    ∃ pad' trail', Blank isWhiteSpace pad' ∧ Blank isWhiteSpace trail' ∧
      (written = [] → pad' = []) ∧ pad ++ written ++ trail = pad' ++ written ++ trail' := by
  by_cases hempty : written = []
  · subst hempty
    exact ⟨[], pad ++ trail, by simp [Blank], hpad.append htrail, fun _ => rfl, by simp⟩
  · exact ⟨pad, trail, hpad, htrail, fun h => absurd h hempty, rfl⟩

theorem exportPrefix_front {front behind : List Char}
    (h : exportPrefix <+: front ++ '='::behind) : exportPrefix <+: front := by
  rcases List.prefix_or_prefix_of_prefix h (List.prefix_append front ('='::behind)) with h' | h'
  · exact h'
  · obtain ⟨rest, hrest⟩ := h'
    rw [← hrest, List.prefix_append_right_inj] at h
    cases rest with
    | nil => exact (List.append_nil front ▸ hrest : front = exportPrefix) ▸ List.prefix_rfl
    | cons c rest =>
      obtain ⟨more, hmore⟩ := h
      obtain rfl : c = '=' := (List.cons.inj hmore).1
      have hin : '=' ∈ exportPrefix := hrest ▸ by simp
      exact absurd hin (by decide)

theorem key_not_comment {key gap behind : List Char} (hkey : isKey key = true) :
    (key ++ gap ++ behind).head? ≠ some '#' := by
  obtain ⟨c, rest, rfl⟩ := List.exists_cons_of_ne_nil (isKey_chars hkey).1
  have hc : c ≠ '#' := (keyChar_not_blank ((isKey_chars hkey).2 c (by simp))).2.2
  simpa using hc

theorem export_tight (rest : List Char) {text : List Char} (h : Tight isWhiteSpace text)
    (hne : text ≠ []) : Tight isWhiteSpace (exportPrefix ++ rest ++ text) := by
  constructor
  · intro c hc
    obtain rfl := Option.some.inj hc
    rfl
  · intro c hc
    refine h.2 c ?_
    rw [List.getLast?_append, List.getLast?_eq_some_getLast hne] at hc
    rw [List.getLast?_eq_some_getLast hne]
    exact hc

theorem stripExport_export {rest text : List Char} (hrest : Blank isWhiteSpace rest)
    (h : Tight isWhiteSpace text) : stripExport (exportPrefix ++ rest ++ text) = text := by
  have hprefix : exportPrefix <+: exportPrefix ++ rest ++ text :=
    (List.prefix_append _ rest).trans (List.prefix_append _ _)
  have hdrop : (exportPrefix ++ rest ++ text).drop 7 = rest ++ text ++ [] := by
    rw [List.append_assoc, List.append_nil]
    rfl
  rw [stripExport, if_pos (List.isPrefixOf_iff_prefix.mpr hprefix), hdrop]
  exact trim_eq hrest h (by simp [Blank])

theorem parse_tight {lead text trail : List Char} (hlead : Blank isWhiteSpace lead)
    (htight : Tight isWhiteSpace text) (htrail : Blank isWhiteSpace trail) (hne : text ≠ [])
    (hcomment : text.head? ≠ some '#') :
    parseEnvAssignment (lead ++ text ++ trail) = readAssignment (stripExport text) := by
  have htext : trimmed (lead ++ text ++ trail) = text := trim_eq hlead htight htrail
  simp only [parseEnvAssignment, htext, hne, hcomment, or_self, if_false]

theorem line_of_parse {line key value : List Char}
    (h : parseEnvAssignment line = some (String.ofList key, String.ofList value)) :
    AssignmentLine key value line := by
  simp only [parseEnvAssignment] at h
  split at h
  · cases h
  obtain ⟨lead, trail, hlead, htrail, htight, hline⟩ := trim_spec (p := isWhiteSpace) line
  rw [stripExport] at h
  split at h
  · rename_i hexport
    obtain ⟨behind, hbehind⟩ := List.isPrefixOf_iff_prefix.mp hexport
    have hdrop : (trimmed line).drop 7 = behind := by
      rw [← hbehind]
      rfl
    rw [hdrop] at h
    obtain ⟨rest, b, hrest, hb, htight', hsplit⟩ := trim_spec (p := isWhiteSpace) behind
    obtain ⟨gap, pad, written, hkey, hgap, hpad, hwritten, htext⟩ :=
      (readAssignment_iff htight').mp h
    have htext' : Trim.trim isWhiteSpace behind = key ++ gap ++ '='::(pad ++ written) := htext
    have hwhole : Trim.trim isWhiteSpace line =
        exportPrefix ++ rest ++ (key ++ gap ++ '='::(pad ++ written)) ++ b := by
      rw [← htext', List.append_assoc exportPrefix, List.append_assoc exportPrefix, ← hsplit]
      exact hbehind.symm
    obtain rfl : b = [] := by
      rw [hwhole] at htight
      exact htight.back hb
    rw [hline, hwhole, List.append_nil]
    exact .exported hlead hrest hkey hgap hpad hwritten htrail
  · rename_i hbare
    obtain ⟨gap, pad, written, hkey, hgap, hpad, hwritten, htext⟩ :=
      (readAssignment_iff htight).mp h
    have htext' : Trim.trim isWhiteSpace line = key ++ gap ++ '='::(pad ++ written) := htext
    rw [hline, htext']
    refine .bare hlead hkey hgap hpad hwritten htrail fun hprefix => hbare ?_
    have hfront : exportPrefix <+: Trim.trim isWhiteSpace line := by
      rw [htext']
      exact hprefix.trans (List.prefix_append _ _)
    exact List.isPrefixOf_iff_prefix.mpr hfront

theorem parse_of_line {line key value : List Char} (h : AssignmentLine key value line) :
    parseEnvAssignment line = some (String.ofList key, String.ofList value) := by
  cases h with
  | @bare lead gap pad written trail hlead hkey hgap hpad hwritten htrail hno =>
    obtain ⟨pad', trail', hpad', htrail', hsettled, hsame⟩ := settle hpad hwritten htrail
    have htight := assignment_tight hkey gap ((writes_iff _ _).mp hwritten).1 hsettled
    have hline : lead ++ (key ++ gap ++ '='::(pad ++ written)) ++ trail =
        lead ++ (key ++ gap ++ '='::(pad' ++ written)) ++ trail' := by
      simp only [List.append_assoc, List.cons_append] at hsame ⊢
      rw [hsame]
    have hbare : stripExport (key ++ gap ++ '='::(pad' ++ written)) =
        key ++ gap ++ '='::(pad' ++ written) :=
      if_neg fun hprefix => hno (exportPrefix_front (List.isPrefixOf_iff_prefix.mp hprefix))
    rw [hline, parse_tight hlead htight htrail' (by simp) (key_not_comment hkey), hbare]
    exact (readAssignment_iff htight).mpr
      ⟨gap, pad', written, hkey, hgap, hpad', hwritten, rfl⟩
  | @exported lead rest gap pad written trail hlead hrest hkey hgap hpad hwritten htrail =>
    obtain ⟨pad', trail', hpad', htrail', hsettled, hsame⟩ := settle hpad hwritten htrail
    have htight := assignment_tight hkey gap ((writes_iff _ _).mp hwritten).1 hsettled
    have hline : lead ++ (exportPrefix ++ rest ++ (key ++ gap ++ '='::(pad ++ written))) ++ trail =
        lead ++ (exportPrefix ++ rest ++ (key ++ gap ++ '='::(pad' ++ written))) ++ trail' := by
      simp only [List.append_assoc, List.cons_append] at hsame ⊢
      rw [hsame]
    rw [hline, parse_tight hlead (export_tight rest htight (by simp)) htrail'
      (by simp [exportPrefix]) (by simp [exportPrefix]), stripExport_export hrest htight]
    exact (readAssignment_iff htight).mpr
      ⟨gap, pad', written, hkey, hgap, hpad', hwritten, rfl⟩

theorem assigns_iff (line : List Char) (key value : String) :
    parseEnvAssignment line = some (key, value) ↔
      AssignmentLine key.toList value.toList line := by
  constructor
  · intro h
    refine line_of_parse ?_
    rwa [String.ofList_toList, String.ofList_toList]
  · intro h
    have hread := parse_of_line h
    rwa [String.ofList_toList, String.ofList_toList] at hread

def assignmentsOf (file : Option (List Char)) : List (String × String) :=
  match file with
  | none => []
  | some content => (lines content).filterMap parseEnvAssignment

theorem loadEnvFile_eq (file : Option (List Char)) (env : Env) :
    loadEnvFile file env = (assignmentsOf file).foldlM setIfUnset env := by
  cases file with
  | none => rfl
  | some content =>
    rw [loadEnvFile, assignmentsOf]
    induction lines content generalizing env with
    | nil => rfl
    | cons line rest ih =>
      rw [List.foldlM_cons, List.filterMap_cons]
      cases parseEnvAssignment line with
      | none => exact ih env
      | some assignment =>
        rw [List.foldlM_cons]
        exact bind_congr fun env' => ih env'

theorem loadEnvFiles_eq (dotEnv dotEnvLocal : Option (List Char)) (env : Env) :
    loadEnvFiles dotEnv dotEnvLocal env =
      (assignmentsOf dotEnv ++ assignmentsOf dotEnvLocal).foldlM setIfUnset env := by
  rw [loadEnvFiles, List.foldlM_append, loadEnvFile_eq]
  exact bind_congr fun env' => loadEnvFile_eq dotEnvLocal env'

def firstAssigned (env : Env) (assignments : List (String × String)) (name : String) :
    Option String :=
  (env.get? name).or (IndexMap.lookup name assignments)

def SetsNul (env : Env) (assignments : List (String × String)) : Prop :=
  ∃ name value, env.get? name = none ∧ firstAssigned env assignments name = some value ∧
    '\x00' ∈ value.toList

theorem assigned_set {env : Env} {key value : String} (h : env.get? key = none)
    (assignments : List (String × String)) (name : String) :
    firstAssigned (env.insert key value) assignments name =
      firstAssigned env ((key, value)::assignments) name := by
  rw [firstAssigned, firstAssigned, IndexMap.get?_insert, IndexMap.lookup]
  by_cases hname : name = key
  · subst hname
    simp [h]
  · simp [hname, Ne.symm hname]

theorem assigned_skip {env : Env} {key : String} (h : env.get? key ≠ none) (value : String)
    (assignments : List (String × String)) (name : String) :
    firstAssigned env assignments name = firstAssigned env ((key, value)::assignments) name := by
  rw [firstAssigned, firstAssigned, IndexMap.lookup]
  by_cases hname : key = name
  · subst hname
    obtain ⟨v, hv⟩ := Option.ne_none_iff_exists'.mp h
    simp [hv]
  · simp [hname]

theorem foldl_reads (assignments : List (String × String)) (env env' : Env)
    (h : assignments.foldlM setIfUnset env = some env') (name : String) :
    env'.get? name = firstAssigned env assignments name := by
  induction assignments generalizing env with
  | nil =>
    obtain rfl := Option.some.inj h
    simp [firstAssigned, IndexMap.lookup]
  | cons assignment rest ih =>
    obtain ⟨key, value⟩ := assignment
    rw [List.foldlM_cons, setIfUnset] at h
    split at h
    · rename_i hunset
      have hnone : env.get? key = none := Option.isNone_iff_eq_none.mp hunset
      rw [setVar] at h
      split at h
      · cases h
      · rw [ih _ h, assigned_set hnone]
    · rename_i hset
      have hsome : env.get? key ≠ none := fun hnone => hset (Option.isNone_iff_eq_none.mpr hnone)
      rw [ih _ h, assigned_skip hsome value]

theorem setsNul_set {env : Env} {key value : String} (h : env.get? key = none)
    (hvalue : '\x00' ∉ value.toList) (assignments : List (String × String)) :
    SetsNul (env.insert key value) assignments ↔ SetsNul env ((key, value)::assignments) := by
  simp only [SetsNul, assigned_set h]
  constructor
  · rintro ⟨name, v, hname, hv⟩
    rw [IndexMap.get?_insert] at hname
    split at hname
    · cases hname
    · exact ⟨name, v, hname, hv⟩
  · rintro ⟨name, v, hname, hv, hnul⟩
    refine ⟨name, v, ?_, hv, hnul⟩
    rw [IndexMap.get?_insert, if_neg]
    · exact hname
    · rintro rfl
      have hfirst : value = v := by simpa [firstAssigned, IndexMap.lookup, h] using hv
      exact hvalue (hfirst ▸ hnul)

theorem foldl_panics (assignments : List (String × String)) (env : Env) :
    assignments.foldlM setIfUnset env = none ↔ SetsNul env assignments := by
  induction assignments generalizing env with
  | nil =>
    constructor
    · intro h
      cases h
    · rintro ⟨name, value, hname, hvalue, -⟩
      simp [firstAssigned, IndexMap.lookup, hname] at hvalue
  | cons assignment rest ih =>
    obtain ⟨key, value⟩ := assignment
    rw [List.foldlM_cons, setIfUnset]
    split
    · rename_i hunset
      have hnone : env.get? key = none := Option.isNone_iff_eq_none.mp hunset
      rw [setVar]
      split
      · rename_i hnul
        have hfirst : firstAssigned env ((key, value)::rest) key = some value := by
          simp [firstAssigned, IndexMap.lookup, hnone]
        exact ⟨fun _ => ⟨key, value, hnone, hfirst, hnul⟩, fun _ => rfl⟩
      · rename_i hnul
        exact (ih _).trans (setsNul_set hnone hnul rest)
    · rename_i hset
      have hsome : env.get? key ≠ none := fun hnone => hset (Option.isNone_iff_eq_none.mpr hnone)
      have hsame : firstAssigned env rest = firstAssigned env ((key, value)::rest) :=
        funext (assigned_skip hsome value rest)
      refine (ih env).trans ?_
      rw [SetsNul, SetsNul, hsame]

/-- A variable has its value from the process, else from the first line that assigns it. -/
structure LoadsFirst (dotEnv dotEnvLocal : Option (List Char)) (env : Env) : Prop where
  reads : ∀ env', loadEnvFiles dotEnv dotEnvLocal env = some env' → ∀ name,
    env'.get? name = firstAssigned env (assignmentsOf dotEnv ++ assignmentsOf dotEnvLocal) name
  panics : loadEnvFiles dotEnv dotEnvLocal env = none ↔
    SetsNul env (assignmentsOf dotEnv ++ assignmentsOf dotEnvLocal)

theorem files_loaded (dotEnv dotEnvLocal : Option (List Char)) (env : Env) :
    LoadsFirst dotEnv dotEnvLocal env where
  reads env' h name := by
    rw [loadEnvFiles_eq] at h
    exact foldl_reads _ env env' h name
  panics := by
    rw [loadEnvFiles_eq]
    exact foldl_panics _ env

def asFile (env : Env) : List Char :=
  env.entries.flatMap (fun e =>
    (e.1.toList ++ '='::doubleQuote::(e.2.toList ++ [doubleQuote])) ++ ['\n'])

def Writable (env : Env) : Prop :=
  ∀ e ∈ env.entries, isKey e.1.toList = true ∧ '\n' ∉ e.2.toList ∧ '\x00' ∉ e.2.toList

instance (env : Env) : Decidable (Writable env) := inferInstanceAs (Decidable (∀ e ∈ _, _))

theorem lines_cons {line : List Char} (h : '\n' ∉ line) (hlast : line.getLast? ≠ some '\r')
    (rest : List Char) : lines (line ++ ['\n'] ++ rest) = line::lines rest := by
  have hsplit : (line ++ ['\n'] ++ rest).splitOn '\n' = line::rest.splitOn '\n' := by
    rw [List.append_assoc]
    exact List.splitOn_append_cons_self_of_not_mem h rest
  obtain ⟨piece, pieces, hpieces⟩ := List.exists_cons_of_ne_nil (List.splitOn_ne_nil '\n' rest)
  simp only [lines, hsplit, hpieces, List.dropLast_cons_cons, List.map_cons,
    List.getLast?_cons_cons, stripCarriageReturn, if_neg hlast, List.cons_append]

theorem lines_nil : lines [] = [] := by
  decide

theorem assignment_written {key value : String} (hkey : isKey key.toList = true) :
    parseEnvAssignment (key.toList ++ '='::doubleQuote::(value.toList ++ [doubleQuote])) =
      some (key, value) := by
  have hnil : Blank isWhiteSpace ([] : List Char) := by simp [Blank]
  have hline := AssignmentLine.bare hnil hkey hnil hnil (.quoted (Or.inl rfl) value.toList) hnil
    (fun hprefix => ?_)
  · have hread := parse_of_line hline
    rw [String.ofList_toList, String.ofList_toList] at hread
    simpa using hread
  · rw [List.append_nil] at hprefix
    have hblank : ' ' ∈ key.toList := hprefix.subset (by decide)
    exact absurd (keyChar_not_blank ((isKey_chars hkey).2 _ hblank)).1 (by decide)

theorem assignmentsOf_written {env : Env} (h : Writable env) :
    assignmentsOf (some (asFile env)) = env.entries := by
  rw [Writable] at h
  rw [assignmentsOf, asFile]
  generalize env.entries = es at h ⊢
  induction es with
  | nil =>
    rw [List.flatMap_nil, lines_nil]
    rfl
  | cons e rest ih =>
    obtain ⟨hkey, hline, -⟩ := h e (by simp)
    have hnewline : '\n' ∉ e.1.toList ++ '='::doubleQuote::(e.2.toList ++ [doubleQuote]) := by
      intro hin
      simp only [List.mem_append, List.mem_cons, List.not_mem_nil, or_false] at hin
      rcases hin with hin | hin | hin | hin | hin
      · exact absurd (keyChar_not_blank ((isKey_chars hkey).2 _ hin)).1 (by decide)
      · exact absurd hin (by decide)
      · exact absurd hin (by decide)
      · exact hline hin
      · exact absurd hin (by decide)
    have hlast : (e.1.toList ++ '='::doubleQuote::(e.2.toList ++ [doubleQuote])).getLast? ≠
        some '\r' := by
      have hquote : e.1.toList ++ '='::doubleQuote::(e.2.toList ++ [doubleQuote]) =
          e.1.toList ++ '='::doubleQuote::e.2.toList ++ [doubleQuote] := by simp
      rw [hquote, List.getLast?_concat]
      decide
    rw [List.flatMap_cons, lines_cons hnewline hlast, List.filterMap_cons, assignment_written hkey]
    exact congrArg _ (ih fun e' he' => h e' (List.mem_cons_of_mem e he'))

theorem optString_congr {env env' : Env} (h : ∀ name, env.get? name = env'.get? name) :
    optString env = optString env' :=
  funext fun name => by rw [optString, optString, h]

theorem readServerConfig_congr {env env' : Env} (h : ∀ name, env.get? name = env'.get? name) :
    readServerConfig env = readServerConfig env' := by
  have hstring := optString_congr h
  have hbool : optBool env = optBool env' := funext fun name => by rw [optBool, optBool, hstring]
  have hint : posInt env = posInt env' :=
    funext fun name => funext fun d => by rw [posInt, posInt, hstring]
  simp only [readServerConfig, readStorage, readRateLimit, readKeyPackageQuota, readRelayUrls,
    hstring, hbool, hint]

/-- Settings are read alike wherever they stand: in the process, in `.env` below it or in
`.env.local` below both. -/
theorem written_configuration (process first second settings : Env) (hfirst : Writable first)
    (hsecond : Writable second) (h : ∀ name, settings.get? name =
      (process.get? name).or ((first.get? name).or (second.get? name))) :
    load (some (asFile first)) (some (asFile second)) process =
      some (readServerConfig settings) := by
  have hassigned : ∀ name, firstAssigned process (first.entries ++ second.entries) name =
      settings.get? name := by
    intro name
    rw [firstAssigned, IndexMap.lookup_append, h]
    rfl
  rw [load, loadEnvFiles_eq, assignmentsOf_written hfirst, assignmentsOf_written hsecond]
  cases hloaded : (first.entries ++ second.entries).foldlM setIfUnset process with
  | none =>
    obtain ⟨name, value, hname, hvalue, hnul⟩ := (foldl_panics _ process).mp hloaded
    rw [firstAssigned, hname, Option.none_or, IndexMap.lookup_append,
      Option.or_eq_some_iff] at hvalue
    rcases hvalue with hvalue | ⟨-, hvalue⟩
    · exact absurd hnul (hfirst _ ((IndexMap.get?_eq_some_iff first name value).mp hvalue)).2.2
    · exact absurd hnul (hsecond _ ((IndexMap.get?_eq_some_iff second name value).mp hvalue)).2.2
  | some env' =>
    refine congrArg some (readServerConfig_congr fun name => ?_)
    rw [foldl_reads _ process env' hloaded name, hassigned]

def namedProcess : Env := IndexMap.empty.insert "CORDN_SERVER_NAME" "home"

def weekFile : Env :=
  (IndexMap.empty.insert "CORDN_SERVER_NAME" "other").insert "CORDN_MAX_AGE_DAYS" "7"

def storeFile : Env := IndexMap.empty.insert "CORDN_STORAGE_BACKEND" "sqlite"

def weekAtHome : Env :=
  ((IndexMap.empty.insert "CORDN_SERVER_NAME" "home").insert "CORDN_MAX_AGE_DAYS" "7").insert
    "CORDN_STORAGE_BACKEND" "sqlite"

theorem written_configuration_sample :
    load (some (asFile weekFile)) (some (asFile storeFile)) namedProcess =
      some (readServerConfig weekAtHome) :=
  written_configuration namedProcess weekFile storeFile weekAtHome (by decide +kernel)
    (by decide +kernel) fun name => by
      simp only [namedProcess, weekFile, storeFile, weekAtHome, IndexMap.get?_insert,
        IndexMap.get?_empty]
      split_ifs <;> simp_all

end Cordn.Config
