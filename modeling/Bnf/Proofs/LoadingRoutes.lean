import Bnf.Grammar.File
import Bnf.Proofs.Conversation
import Bnf.Proofs.Live
import Bnf.Proofs.Merging
import Bnf.UnicodeData.Version14
import Mathlib

/-!
# The routes of loading

Lines come into a grammar on several routes: they are loaded together or one list after the other,
each is loaded alone as it is taken off a file, or each is read as an operation of its own. Loading
goes along the lines with `Loaded.more`, so that a list may be cut anywhere (`load_append`), and a
line counts only without the blanks at its ends (`load_map_strip`), so that it does not matter
whether its line feed comes with it. For a file this means that neither the characters that end its
lines nor an end behind the last line make a difference. All of it is `loading_routes_agree`. Only a
definition that cannot be read ends the loading before the last line, on every route alike.
-/

namespace Bnf

/-! ## The lines of a file -/

namespace Text

/-- The lines of a text as they are taken off it, each with the line feed that ends it. -/
def takeLines (text : List Char) : List (List Char) :=
  match _hline : takeLine? text with
  | none => []
  | some (line, left) => line :: takeLines left
termination_by text.length
decreasing_by exact length_lt_of_takeLine? _hline

/-- Without the blanks at their ends, the lines that are taken off a text are its lines. -/
theorem map_strip_takeLines (text : List Char) :
    (takeLines text).map strip = (lines text).map strip := by
  induction text using takeLines.induct with
  | case1 text hnone =>
      rw [takeLines, hnone, takeLine?_eq_none_iff.1 hnone]
      rfl
  | case2 text line left hsome ih =>
      obtain ⟨first, hlines, hline⟩ := lines_of_takeLine? hsome
      have hstrip : strip line = strip first := by
        rcases hline with rfl | rfl
        · rfl
        · exact strip_append_blank (by decide) first
      rw [takeLines, hsome, hlines, List.map_cons, List.map_cons, ih, hstrip]

/-- The characters that may end a line: a line feed, a carriage return and a line feed, or a
carriage return. -/
def lineEnds : List (List Char) :=
  [['\n'], ['\r', '\n'], ['\r']]

/-- The text with every line feed written as another line end. -/
def endLines (ending text : List Char) : List Char :=
  text.flatMap fun c => if c = '\n' then ending else [c]

theorem endLines_cons (ending : List Char) (c : Char) (rest : List Char) :
    endLines ending (c :: rest) = (if c = '\n' then ending else [c]) ++ endLines ending rest :=
  List.flatMap_cons

/-- Line ends are unified character by character, but for a line feed behind a carriage return. -/
theorem unifyLineEnds_cons {c : Char} {rest : List Char}
    (h : c = '\r' → rest.head? ≠ some '\n') :
    unifyLineEnds (c :: rest) = (if c = '\r' then '\n' else c) :: unifyLineEnds rest := by
  refine unifyLineEnds.eq_2 c rest fun more hc hrest => ?_
  exact h hc (by rw [hrest]; rfl)

/-- No line feed comes first if each is written as a carriage return. -/
theorem head_endLines_ne (text : List Char) : (endLines ['\r'] text).head? ≠ some '\n' := by
  cases text with
  | nil => simp [endLines]
  | cons c rest =>
      rw [endLines_cons]
      split
      · simp
      · rename_i hc
        simpa using hc

/-- A text without carriage returns that is written with other line ends is read back. -/
theorem unifyLineEnds_endLines {ending text : List Char} (hending : ending ∈ lineEnds)
    (htext : '\r' ∉ text) : unifyLineEnds (endLines ending text) = text := by
  induction text with
  | nil => rfl
  | cons c rest ih =>
      rw [List.mem_cons, not_or] at htext
      rw [endLines_cons]
      split
      · rename_i hc
        subst hc
        rw [lineEnds, List.mem_cons, List.mem_cons, List.mem_singleton] at hending
        have hrest := ih htext.2
        rcases hending with rfl | rfl | rfl
        · have hfeed : '\n' ≠ '\r' := by decide
          rw [List.singleton_append, unifyLineEnds_cons fun h => absurd h hfeed, if_neg hfeed,
            hrest]
        · show '\n' :: unifyLineEnds (endLines _ rest) = '\n' :: rest
          rw [hrest]
        · rw [List.singleton_append, unifyLineEnds_cons fun _ => head_endLines_ne rest, if_pos rfl,
            hrest]
      · have hc : c ≠ '\r' := Ne.symm htext.1
        rw [List.singleton_append, unifyLineEnds_cons fun h => absurd h hc, if_neg hc, ih htext.2]

/-- A line feed behind a text ends its last line, or adds an empty one. -/
theorem lines_append_lineFeed (text : List Char) :
    lines (text ++ ['\n']) = lines text ∨ lines (text ++ ['\n']) = lines text ++ [[]] := by
  induction text with
  | nil => exact .inr rfl
  | cons c rest ih =>
      rw [List.cons_append, lines, lines]
      split
      · exact ih.imp (congrArg _) (congrArg _)
      · cases hlines : lines rest with
        | nil =>
            rcases ih with h | h
            · exact .inl (by rw [h, hlines])
            · exact .inl (by rw [h, hlines]; rfl)
        | cons first more =>
            rcases ih with h | h
            · exact .inl (by rw [h, hlines])
            · exact .inr (by rw [h, hlines]; rfl)

end Text

/-! ## Loading in steps -/

section

variable [UnicodeData]

/-- Loads further lines, unless the loading has ended in a fault, and adds their number and their
trace to those of the lines before. -/
def Loaded.more (loaded : Loaded) (lines : List (List Char)) : Loaded :=
  match loaded.result with
  | .error _ => loaded
  | .ok count =>
    let further := loaded.grammar.load lines
    ⟨further.grammar, further.result.map (count + ·), loaded.events ++ further.events⟩

namespace Grammar

/-- Loads lines one by one, each as a list of its own, and adds up the numbers and the traces. -/
def loadEach (grammar : Grammar) (lines : List (List Char)) : Loaded :=
  lines.foldl (fun loaded line => loaded.more [line]) ⟨grammar, .ok 0, []⟩

/-- What one more line does depends on the grammar that the lines before it have left, and is added
to what they have done. -/
theorem loadLine_eq_more (loaded : Loaded) (line : List Char) :
    loadLine loaded line = loaded.more [line] := by
  obtain ⟨grammar, fault | count, events⟩ := loaded
  · rfl
  · have hload : grammar.load [line] = loadLine ⟨grammar, .ok 0, []⟩ line := rfl
    rw [Loaded.more, hload]
    unfold loadLine
    dsimp only
    split
    · simp [Except.map]
    · cases (grammar.readLine (String.ofList (Text.strip line))).1.result with
      | ok name => simp [Except.map]
      | error fault => cases fault <;> simp [Except.map]

/-- Adding two parts of lines one after the other is adding both at once. -/
theorem more_cons {line : List Char} {rest : List (List Char)}
    (h : ∀ grammar : Grammar, grammar.load (line :: rest) = (grammar.load [line]).more rest)
    (loaded : Loaded) : (loaded.more [line]).more rest = loaded.more (line :: rest) := by
  cases hloaded : loaded.result with
  | error fault =>
      have hsame (lines : List (List Char)) : loaded.more lines = loaded := by
        rw [Loaded.more, hloaded]
      rw [hsame, hsame, hsame]
  | ok count =>
      have hmore (lines : List (List Char)) : loaded.more lines =
          ⟨(loaded.grammar.load lines).grammar, (loaded.grammar.load lines).result.map (count + ·),
            loaded.events ++ (loaded.grammar.load lines).events⟩ := by
        rw [Loaded.more, hloaded]
      rw [hmore, hmore, h]
      cases hline : (loaded.grammar.load [line]).result with
      | error fault => simp [Loaded.more, hline, Except.map]
      | ok first =>
          cases hrest : ((loaded.grammar.load [line]).grammar.load rest).result <;>
            simp [Loaded.more, hline, hrest, Except.map, Nat.add_assoc]

/-- Loading goes on from what was loaded before. -/
theorem foldl_loadLine (loaded : Loaded) (lines : List (List Char)) :
    lines.foldl loadLine loaded = loaded.more lines := by
  induction lines generalizing loaded with
  | nil =>
      obtain ⟨grammar, fault | count, events⟩ := loaded
      · rfl
      · simp [Loaded.more, load, Except.map]
  | cons line rest ih =>
      have hload (grammar : Grammar) :
          grammar.load (line :: rest) = (grammar.load [line]).more rest :=
        ih (loadLine ⟨grammar, .ok 0, []⟩ line)
      calc (line :: rest).foldl loadLine loaded
          = rest.foldl loadLine (loaded.more [line]) := by rw [List.foldl_cons, loadLine_eq_more]
        _ = (loaded.more [line]).more rest := ih _
        _ = loaded.more (line :: rest) := more_cons hload loaded

/-- A list of lines may be loaded in two parts. -/
theorem load_append (grammar : Grammar) (first later : List (List Char)) :
    grammar.load (first ++ later) = (grammar.load first).more later := by
  rw [load, List.foldl_append, foldl_loadLine]
  rfl

/-- A list of lines may be loaded line by line. -/
theorem loadEach_eq (grammar : Grammar) (lines : List (List Char)) :
    grammar.loadEach lines = grammar.load lines := by
  unfold loadEach load
  exact congrArg (fun step => lines.foldl step _)
    (funext fun loaded => funext fun line => (loadLine_eq_more loaded line).symm)

/-- Blanks at the ends of lines make no difference. -/
theorem load_map_strip (grammar : Grammar) (lines : List (List Char)) :
    grammar.load (lines.map Text.strip) = grammar.load lines := by
  rw [load, List.foldl_map]
  refine congrArg (fun step => lines.foldl step _) (funext fun loaded => funext fun line => ?_)
  rw [loadLine, Text.strip_strip, loadLine]

/-- Lines that differ in the blanks at their ends only are loaded alike. -/
theorem load_congr (grammar : Grammar) {lines other : List (List Char)}
    (h : lines.map Text.strip = other.map Text.strip) :
    grammar.load lines = grammar.load other := by
  rw [← load_map_strip, h, load_map_strip]

/-- A line that is empty makes no difference at the end. -/
theorem loadLine_nil (loaded : Loaded) : loadLine loaded [] = loaded := by
  unfold loadLine
  cases loaded.result <;> rfl

/-- Whether the last line of a text is ended makes no difference. -/
theorem load_lines_append_lineFeed (grammar : Grammar) (text : List Char) :
    grammar.load (Text.lines (text ++ ['\n'])) = grammar.load (Text.lines text) := by
  rcases Text.lines_append_lineFeed text with h | h
  · rw [h]
  · rw [h, load, List.foldl_append]
    exact loadLine_nil _

/-! ## The routes -/

/-- The definitions that lines write can all be read. -/
def ReadableLines (lines : List (List Char)) : Prop :=
  ∀ entry ∈ lines.filterMap RuleLine.written?, Definition.Readable entry.2

/-- Reading lines one after the other, whether they are refused or not, inserts what they write, if
it can be read. -/
theorem run_readLine {lines : List (List Char)} (h : ReadableLines lines) (grammar : Grammar) :
    run (lines.map fun line => .readLine (String.ofList line)) grammar =
      (grammar.insertAll (lines.filterMap RuleLine.written?)).2 := by
  induction lines generalizing grammar with
  | nil => rfl
  | cons line rest ih =>
      rw [ReadableLines, RuleLine.filterMap_written_cons, List.forall_mem_append] at h
      show run (rest.map fun line => .readLine (String.ofList line))
        ((Operation.readLine (String.ofList line)).apply grammar) = _
      rw [ih h.2, apply_read_line, String.toList_ofList, RuleLine.filterMap_written_cons,
        insertAll_append, insertAll_of_readable h.1]

/-- A line that is not accepted may follow: what is loaded is still what reading leaves. -/
theorem load_concat {lines : List (List Char)} (h : ReadableLines lines) (grammar : Grammar)
    (last : List Char) : (grammar.load (lines ++ [last])).grammar =
      run ((lines ++ [last]).map fun line => .readLine (String.ofList line)) grammar := by
  have hlines : (lines ++ [last]).filterMap RuleLine.written? =
      lines.filterMap RuleLine.written? ++ (RuleLine.written? last).toList := by
    rw [List.filterMap_append, RuleLine.filterMap_written_cons, List.filterMap_nil,
      List.append_nil]
  have hrun : run ((lines ++ [last]).map fun line => .readLine (String.ofList line)) grammar =
      (Operation.readLine (String.ofList last)).apply
        (run (lines.map fun line => .readLine (String.ofList line)) grammar) := by
    simp [run]
  rw [hrun, run_readLine h, apply_read_line, String.toList_ofList, (load_eq _ _).1, hlines,
    insertAll_append, insertAll_of_readable h]

/-- A line is accepted exactly if it writes a rule that can be read, whatever the grammar. -/
theorem isOk_readLine (grammar : Grammar) (line : List Char) :
    (grammar.readLine (String.ofList line)).1.result.isOk =
      (RuleLine.written? line).any fun entry => Definition.Readable entry.2 := by
  rw [read_line_eq, String.toList_ofList]
  cases RuleLine.written? line with
  | none => rfl
  | some entry =>
      dsimp only
      by_cases hentry : Definition.Readable entry.2
      · rw [insert_of_readable hentry]
        simp [hentry, Except.map, Except.isOk, Except.toBool]
      · rw [insert_of_not_readable hentry]
        simp [hentry, Except.map, Except.isOk, Except.toBool]

/-- If all definitions that lines write can be read, loading counts the lines that are accepted. -/
theorem result_load {lines : List (List Char)} (h : ReadableLines lines) (grammar other : Grammar) :
    (grammar.load lines).result =
      .ok (lines.countP fun line => (other.readLine (String.ofList line)).1.result.isOk) := by
  have hcount : (lines.filterMap RuleLine.written?).length =
      lines.countP fun line => (other.readLine (String.ofList line)).1.result.isOk := by
    rw [List.length_filterMap_eq_countP]
    refine List.countP_congr fun line hline => ?_
    rw [isOk_readLine]
    cases hwritten : RuleLine.written? line with
    | none => rfl
    | some entry =>
        have hentry := h entry (List.mem_filterMap.2 ⟨line, hline, hwritten⟩)
        simp [hentry]
  rw [(load_eq _ _).2, insertAll_of_readable h, ← hcount]
  rfl

/-- Loading ends in a fault exactly if a definition that a line writes cannot be read. -/
theorem result_load_eq_error_iff {lines : List (List Char)} {grammar : Grammar} {fault : Fault} :
    (grammar.load lines).result = .error fault ↔
      fault = .codePointOverflow ∧ ¬ ReadableLines lines := by
  rw [(load_eq _ _).2, insertAll_fst]
  split
  · rename_i hlines
    exact iff_of_false (fun h => nomatch h) fun h => h.2 hlines
  · rename_i hlines
    exact ⟨fun h => ⟨(Except.error.inj h).symm, hlines⟩, fun h => by rw [h.1]; rfl⟩

/-- A file that is encoded in UTF-8 is loaded by the lines of its text. -/
theorem loadFrom_of_text {files : FileReader} {path text : String}
    (hpath : Char.ofNat 0 ∉ path.toList) (hfile : files path = .ok text.toUTF8)
    (grammar : Grammar) :
    grammar.loadFrom files path = (grammar.loadText text, (grammar.loadText text).transcript) := by
  have htext : String.fromUTF8? text.toUTF8 = some text := by
    unfold String.fromUTF8?
    exact dif_pos text.isValidUTF8
  rw [loadFrom, if_neg hpath, hfile]
  dsimp only
  rw [loadBytes, htext]

/-- For every grammar and all lines, the routes of loading agree. If all definitions that the lines
write can be read, loading leaves the grammar that is left if each line is read, and a refusal
passed over, and it counts the lines that are accepted, by whatever grammar reads them. Otherwise it
ends in a fault, with the grammar that is left if each line is read up to the first whose definition
cannot be read, and the lines behind it are not loaded. It does not matter whether the lines are
loaded together or each alone, nor where a list is cut before the fault, and in a session loading
ends as it is recorded to end. A file that can be read is loaded as its lines are, with or without
their line feeds. So a text without carriage returns is loaded as its lines are however these are
ended in the file, and whether or not the last one is. -/
theorem loading_routes_agree (grammar : Grammar) :
    (∀ lines : List (List Char),
      (ReadableLines lines →
        (grammar.load lines).grammar =
          run (lines.map fun line => .readLine (String.ofList line)) grammar ∧
        ∀ other : Grammar, (grammar.load lines).result =
          .ok (lines.countP fun line => (other.readLine (String.ofList line)).1.result.isOk)) ∧
      (∀ fault, (grammar.load lines).result = .error fault ↔
        fault = .codePointOverflow ∧ ¬ ReadableLines lines) ∧
      (∀ last, ReadableLines lines → (grammar.load (lines ++ [last])).grammar =
        run ((lines ++ [last]).map fun line => .readLine (String.ofList line)) grammar) ∧
      grammar.loadEach lines = grammar.load lines ∧
      ∀ settings printed, ∃ shown, (Live.load lines).on ⟨settings, printed, grammar⟩ =
        ((grammar.load lines).result,
          ⟨settings, printed ++ shown, (grammar.load lines).grammar⟩)) ∧
    (∀ first later : List (List Char),
      (∀ count, (grammar.load first).result = .ok count →
        (grammar.load (first ++ later)).grammar =
          ((grammar.load first).grammar.load later).grammar ∧
        (grammar.load (first ++ later)).result =
          ((grammar.load first).grammar.load later).result.map (count + ·)) ∧
      ∀ fault, (grammar.load first).result = .error fault →
        grammar.load (first ++ later) = grammar.load first) ∧
    ∀ (files : FileReader) (path : String), Char.ofNat 0 ∉ path.toList →
      (∀ text : String, files path = .ok text.toUTF8 →
        ∃ loaded, grammar.loadFrom files path = (loaded, loaded.transcript) ∧
          loaded = grammar.loadEach (Text.takeLines (Text.unifyLineEnds text.toList)) ∧
          loaded = grammar.load (Text.takeLines (Text.unifyLineEnds text.toList)) ∧
          loaded = grammar.load (Text.lines (Text.unifyLineEnds text.toList))) ∧
      ∀ text body : List Char, '\r' ∉ text → body = text ∨ body ++ ['\n'] = text →
        ∀ ending ∈ Text.lineEnds,
          files path = .ok (String.ofList (Text.endLines ending body)).toUTF8 →
            grammar.loadFrom files path = (grammar.load (Text.lines text),
              (grammar.load (Text.lines text)).transcript) := by
  refine ⟨fun lines => ⟨fun hlines => ⟨?_, result_load hlines grammar⟩,
      fun fault => result_load_eq_error_iff, fun last hlines => load_concat hlines grammar last,
      loadEach_eq grammar lines, fun settings printed => ?_⟩,
    fun first later => ⟨fun count hfirst => ?_, fun fault hfirst => ?_⟩,
    fun files path hpath => ⟨fun text hfile => ?_, ?_⟩⟩
  · rw [(load_eq grammar lines).1, run_readLine hlines]
  · exact ⟨_, Live.Performs.load lines grammar settings printed⟩
  · rw [load_append, Loaded.more, hfirst]
    exact ⟨rfl, rfl⟩
  · rw [load_append, Loaded.more, hfirst]
  · have htaken := load_congr grammar (Text.map_strip_takeLines (Text.unifyLineEnds text.toList))
    refine ⟨_, loadFrom_of_text hpath hfile grammar, ?_, htaken.symm, rfl⟩
    rw [loadEach_eq]
    exact htaken.symm
  · intro text body htext hbody ending hending hfile
    have hfeeds : '\r' ∉ body := by
      rcases hbody with rfl | rfl
      · exact htext
      · exact fun h => htext (List.mem_append_left _ h)
    have hlines : grammar.load (Text.lines body) = grammar.load (Text.lines text) := by
      rcases hbody with rfl | rfl
      · rfl
      · exact (load_lines_append_lineFeed grammar body).symm
    rw [loadFrom_of_text hpath hfile grammar, loadText, String.toList_ofList,
      Text.unifyLineEnds_endLines hending hfeeds, hlines]

end Grammar

end

end Bnf

namespace Bnf.Grammar

/-- A text with a comment, an empty line, a line that is no rule, and a name that comes twice. -/
def assortedLines : List Char :=
  "# letters\n<a> ::= \"x\"\n\n<b> ::= <a>\n<c> := <a>\n<a> ::= \"y\"\n".toList

/-- The text in a file in which a carriage return and a line feed end each line but the last, which
is not ended. -/
def assortedFile : String :=
  String.ofList (Text.endLines ['\r', '\n'] assortedLines.dropLast)

/-- Three of the six lines are rules. The name that comes twice has its place from the first line
and its definition from the last, and the file is loaded as the text is. -/
theorem loading_routes_agree_assorted :
    ((empty.load (Text.lines assortedLines)).grammar =
        run ((Text.lines assortedLines).map fun line => .readLine (String.ofList line)) empty ∧
      (Text.lines assortedLines).length = 6 ∧
      (empty.load (Text.lines assortedLines)).result = .ok 3 ∧
      (empty.load (Text.lines assortedLines)).grammar.sources =
        [("a", "\"y\""), ("b", "<a>")]) ∧
    (∃ loaded, empty.loadFrom (fun _ => .ok assortedFile.toUTF8) "rules.bnf" =
        (loaded, loaded.transcript) ∧
      loaded = empty.loadEach (Text.takeLines (Text.unifyLineEnds assortedFile.toList)) ∧
      loaded.result = .ok 3) ∧
    Char.ofNat 0 ∉ "rules.bnf".toList ∧ '\r' ∉ assortedLines ∧
    assortedLines.dropLast ++ ['\n'] = assortedLines ∧ ['\r', '\n'] ∈ Text.lineEnds ∧
    empty.loadFrom (fun _ => .ok assortedFile.toUTF8) "rules.bnf" =
      (empty.load (Text.lines assortedLines),
        (empty.load (Text.lines assortedLines)).transcript) := by
  have hpath : Char.ofNat 0 ∉ "rules.bnf".toList := by decide
  have htext : '\r' ∉ assortedLines := by decide
  have hbody : assortedLines.dropLast ++ ['\n'] = assortedLines := by decide
  have hending : ['\r', '\n'] ∈ Text.lineEnds := by decide
  have hwritten : (Text.lines assortedLines).filterMap RuleLine.written? =
      [("a", "\"x\""), ("b", "<a>"), ("a", "\"y\"")] := by cbv
  have hreadable : ReadableLines (Text.lines assortedLines) := by
    rw [ReadableLines, hwritten]
    simp only [List.forall_mem_cons, Definition.readable_iff]
    exact ⟨by cbv, by cbv, by cbv, List.forall_mem_nil _⟩
  obtain ⟨hlines, -, hfiles⟩ := loading_routes_agree empty
  obtain ⟨hread, hended⟩ := hfiles (fun _ => .ok assortedFile.toUTF8) _ hpath
  obtain ⟨loaded, hloaded, heach, -, hwhole⟩ := hread assortedFile rfl
  have hresult : loaded.result = .ok 3 := by
    rw [hwhole]
    cbv
  refine ⟨⟨((hlines _).1 hreadable).1, by cbv, by cbv, by cbv⟩, ⟨loaded, hloaded, heach, hresult⟩,
    hpath, htext, hbody, hending, ?_⟩
  exact hended _ _ htext (.inr hbody) _ hending rfl

/-- Loading ends at a line whose definition cannot be read. The line is not counted but its
definition is kept, and the line behind it is not loaded. -/
theorem load_ends_unreadable :
    (empty.load ["<symbol> ::= [\\U80000000]".toList, "<letter> ::= \"a\"".toList]).result =
        .error .codePointOverflow ∧
      (empty.load ["<symbol> ::= [\\U80000000]".toList,
        "<letter> ::= \"a\"".toList]).grammar.names = ["symbol"] := by
  constructor <;> cbv

end Bnf.Grammar
