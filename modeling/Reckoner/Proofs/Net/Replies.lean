import Reckoner.Proofs.Json.Beyond
import Reckoner.Proofs.Naming
import Reckoner.Proofs.Net.Session

/-!
# Replies — a server answers whatever it is sent

Every line with content makes a request, be it JSON or not, and every request has an outcome, be its
worker lost or not. So there are no bytes that a server fails on once it listens, and its reply has one
line for each line with content, in their order.
-/

namespace Reckoner.Net

open Json Text

/-! ## Requests -/

/-- A line asks for the expression that it names, or else for itself. -/
def Asks (line : List Char) (expression : String) : Prop :=
  (∀ e, Request.Names (String.ofList line) e → expression = e) ∧
    ((∀ e, ¬Request.Names (String.ofList line) e) → expression = String.ofList line)

theorem asks_iff {line : List Char} {expression : String} :
    Asks line expression ↔ expression =
      match Request.ofText (String.ofList line) with
      | .ok r => r.expression
      | .error _ => String.ofList line := by
  cases hread : Request.ofText (String.ofList line) with
  | ok r =>
    have hnames := Request.names_of_ofText hread
    refine ⟨fun h => h.1 _ hnames, fun h => ⟨fun e he => ?_, fun hnone => absurd hnames (hnone _)⟩⟩
    rcases Request.exists_ofText_of_names he with ⟨r', hread', rfl⟩
    rw [h, Except.ok.inj (hread.symm.trans hread')]
  | error faults =>
    have hnone : ∀ e, ¬Request.Names (String.ofList line) e := fun e he => by
      rcases Request.exists_ofText_of_names he with ⟨r, hread', -⟩
      exact nomatch hread.symm.trans hread'
    exact ⟨fun h => h.2 hnone, fun h => ⟨fun e he => absurd he (hnone e), fun _ => h⟩⟩

namespace Server

theorem exists_request (s : Server) {line : List Char} (h : IsContent line) :
    ∃ r, s.request (String.ofList line) = .ok r ∧ Asks line r.expression := by
  cases hread : Request.ofText (String.ofList line) with
  | ok r => exact ⟨r, by rw [request, hread], asks_iff.mpr (by rw [hread])⟩
  | error faults =>
    refine ⟨⟨String.ofList line, s.function, h.isBlankText⟩, ?_, asks_iff.mpr (by rw [hread])⟩
    rw [request, hread]
    exact Request.bare_eq_ok h.isBlankText s.function

/-- A server reads a request from each line with content. -/
theorem exists_receive (s : Server) (chunks : List (List UInt8)) :
    ∃ requests, s.receive chunks = .ok requests ∧
      List.Forall₂ (fun l r => Asks l r.expression)
        (contentLines (Utf8.decodeLossy (received chunks).flatten)) requests :=
  exists_mapM_eq_ok fun _ hl => s.exists_request (isContent_of_mem_contentLines hl)

/-! ## Outcomes -/

-- Whether a worker is lost or not, its outcome repeats the expression.
theorem map_expression_answers (plans : List Plan) (requests : List Request) :
    (Pool.answers plans requests).map (·.expression) = requests.map (·.expression) := by
  refine List.ext_getElem? fun i => ?_
  rw [List.getElem?_map, Pool.answers, List.getElem?_mapIdx, List.getElem?_map, Option.map_map]
  cases requests[i]? with
  | none => rfl
  | some r => exact congrArg some ((Plan.handled_outcome _ r).expression_eq)

/-! ## Replies -/

-- Each line feed of a reply ends an outcome.
theorem splitAt_encode (outcomes : List Outcome) :
    splitAt '\n' (encode outcomes) = (outcomes.map fun o => write o.toValue) ++ [[]] := by
  rw [encode_eq]
  exact splitAt_flatMap
    (List.forall_mem_map.mpr fun o _ => newline_not_mem_writeObject o.simple_members)

/-- A server whose socket can be bound comes to the end of every session. If the client is still
there, its reply is an outcome in JSON for each line with content, each with a line feed after it and
none within. An outcome has the expression that its line asks for. -/
theorem serve_lines (s : Server) {network : Network}
    (hbinds : network.binds socketFamily s.endpoint = true) {processors : Nat}
    (hprocessors : 0 < processors) (plans : List Plan) (connected : Bool)
    (chunks : List (List UInt8)) :
    ∃ session outcomes, s.serve network processors plans connected chunks = .ok session ∧
      (connected = true →
        splitAt '\n' session.reply = (outcomes.map fun o => write o.toValue) ++ [[]]) ∧
      (∀ o ∈ outcomes, parse? (String.ofList (write o.toValue)) = some o.toValue) ∧
      List.Forall₂ (fun l (o : Outcome) => Asks l o.expression)
        (contentLines (Utf8.decodeLossy (received chunks).flatten)) outcomes := by
  rcases s.exists_receive chunks with ⟨requests, hreceive, hasks⟩
  rcases s.exists_session hbinds hprocessors plans connected hreceive with
    ⟨session, hserve, hreply⟩
  refine ⟨session, Pool.answers plans requests, hserve, ?_, ?_, ?_⟩
  · rintro rfl
    rw [hreply, if_pos rfl]
    exact splitAt_encode _
  · exact fun o _ => parse?_write (List.cons_ne_nil _ _) o.simple_members
  · rw [← List.forall₂_map_right_iff (f := Outcome.expression) (R := Asks), map_expression_answers,
      List.forall₂_map_right_iff]
    exact hasks

/-- A character cut off by a line feed, a blank line, an object with a function that is no text, and
one whose expression has a break in it. The first worker is lost. -/
theorem serve_four_lines :
    let chunks : List (List UInt8) := [[0x31, 0xC3], [0x0A, 0x20, 0x0D, 0x0A],
      Utf8.encode ("\x7b\"expression\":\"2\",\"function\":null\x7d\n".toList ++
        " \x7b\"x\":NaN,\"expression\":\"\\u2028 3\"\x7d".toList)]
    let plans : List Plan := [{ crash := true }, { polls := 4 }]
    let s : Server := ⟨⟨.loopback, Endpoint.defaultPort⟩, Request.defaultFunction⟩
    Network.ofOwnFamily.binds socketFamily s.endpoint = true ∧ 0 < 2 ∧
      ∃ (session : Session) (outcomes : List Outcome),
        s.serve .ofOwnFamily 2 plans true chunks = .ok session ∧
        splitAt '\n' session.reply = (outcomes.map fun o => write o.toValue) ++ [[]] ∧
        outcomes.map (·.expression) =
          ["1\uFFFD", "\x7b\"expression\":\"2\",\"function\":null\x7d", "\u2028 3"] := by
  intro chunks plans s
  have hlines : contentLines (Utf8.decodeLossy (received chunks).flatten) =
      ["1\uFFFD".toList, "\x7b\"expression\":\"2\",\"function\":null\x7d".toList,
        "\x7b\"x\":NaN,\"expression\":\"\\u2028 3\"\x7d".toList] := by decide +kernel
  have hbinds : Network.ofOwnFamily.binds socketFamily s.endpoint = true := rfl
  rcases serve_lines s hbinds Nat.two_pos plans true chunks with
    ⟨session, outcomes, hserve, hreply, -, hasks⟩
  refine ⟨hbinds, Nat.two_pos, session, outcomes, hserve, hreply rfl, ?_⟩
  rw [hlines] at hasks
  rcases hasks with _ | ⟨hfirst, _ | ⟨hsecond, _ | ⟨hthird, _ | _⟩⟩⟩
  have hfirst := (asks_iff.mp hfirst).trans (by decide +kernel : _ = "1\uFFFD")
  have hsecond := (asks_iff.mp hsecond).trans
    (by decide +kernel : _ = "\x7b\"expression\":\"2\",\"function\":null\x7d")
  have hthird := (asks_iff.mp hthird).trans (by decide +kernel : _ = "\u2028 3")
  rw [List.map_cons, List.map_cons, List.map_cons, List.map_nil, hfirst, hsecond, hthird]

/-! ## Lines that are refused -/

-- A line that the reader refuses asks for itself.
theorem asks_of_refused {line : List Char} {expression : String} (h : read? line = none)
    (hasks : Asks line expression) : expression = String.ofList line := by
  have hparse : parse? (String.ofList line) = none := by rw [parse?, String.toList_ofList, h]
  rw [asks_iff.mp hasks, Request.ofText, Record.recordOfText, hparse]
  rfl

/-- Lines that the reader refuses are the expressions of their outcomes. -/
theorem exists_session_of_refused (s : Server) {network : Network}
    (hbinds : network.binds socketFamily s.endpoint = true) {processors : Nat}
    (hprocessors : 0 < processors) (plans : List Plan) {lines : List (List Char)}
    (hcontent : ∀ line ∈ lines, IsContent line) (hrefused : ∀ line ∈ lines, read? line = none) :
    let chunks := [Utf8.encode (lines.flatMap fun line => line ++ ['\n'])]
    ∃ (session : Session) (outcomes : List Outcome),
      s.serve network processors plans true chunks = .ok session ∧
      splitAt '\n' session.reply = (outcomes.map fun o => write o.toValue) ++ [[]] ∧
      outcomes.map (·.expression) = lines.map String.ofList := by
  intro chunks
  rcases s.exists_receive chunks with ⟨requests, hreceive, hasks⟩
  rcases s.exists_session hbinds hprocessors plans true hreceive with ⟨session, hserve, hreply⟩
  refine ⟨session, Pool.answers plans requests, hserve, ?_, ?_⟩
  · rw [hreply, if_pos rfl]
    exact splitAt_encode _
  · rw [flatten_received_singleton, Utf8.decodeLossy_encode, contentLines_flatMap hcontent] at hasks
    rw [map_expression_answers]
    clear hserve hreply hreceive hcontent
    induction hasks with
    | nil => rfl
    | cons hfirst _ ih =>
      rw [List.forall_mem_cons] at hrefused
      rw [List.map_cons, List.map_cons, asks_of_refused hrefused.1 hfirst, ih hrefused.2]

theorem isContent_besides {x : List Char} (h : Unbroken x) : IsContent (besides x) := by
  have hfront : Unbroken "\"expression\":\"1\",\"x\":".toList := by decide
  have hlast : (besides x).getLast? = some '}' := by
    rw [besides, ← List.append_assoc, ← List.cons_append, List.getLast?_concat]
  refine ⟨?_, trimBy_eq (fun c hc => ?_) fun c hc => ?_, List.cons_ne_nil _ _⟩
  · refine List.forall_mem_cons.mpr ⟨rfl, List.forall_mem_append.mpr ⟨hfront, ?_⟩⟩
    exact List.forall_mem_append.mpr ⟨h, List.forall_mem_singleton.mpr rfl⟩
  · cases hc
    rfl
  · rw [hlast] at hc
    cases hc
    rfl

/-- A line may be JSON that the reader refuses: one with half of a surrogate pair in it, a number of
4301 digits, or arrays that are nested too deep, each of them beside the expression `1`. Such a line
asks for itself. And a server for an address of version 6 can be made, but its socket cannot be
bound. -/
theorem serve_beyond_reader :
    let half := besides "\"\\ud800\"".toList
    let long := besides (List.replicate 4301 '1')
    let deep := besides (nested 200)
    let chunks : List (List UInt8) :=
      [Utf8.encode ([half, long, deep].flatMap fun line => line ++ ['\n'])]
    let s : Server := ⟨⟨.loopback, Endpoint.defaultPort⟩, Request.defaultFunction⟩
    let far : Server := ⟨⟨.v6 1 none, Endpoint.defaultPort⟩, Request.defaultFunction⟩
    (∀ line ∈ [half, long, deep], ∃ members, Says .none 201 line (.object members) ∧
        lastNamed? "expression".toList members = some (.string (unitsOf "1".toList)) ∧
        lastNamed? "function".toList members = none) ∧
      (∃ (session : Session) (outcomes : List Outcome),
        s.serve .ofOwnFamily 1 [] true chunks = .ok session ∧
        splitAt '\n' session.reply = (outcomes.map fun o => write o.toValue) ++ [[]] ∧
        outcomes.map (·.expression) = [half, long, deep].map String.ofList ∧
        ∀ o ∈ outcomes, o.expression ≠ "1") ∧
      Server.ofValue (.object [("host", .string "::1")]) = .ok far ∧
        far.serve .ofOwnFamily 1 [] true [] = .error .unbound := by
  intro half long deep chunks s far
  have hdigits : IsDigits (List.replicate 4301 '1') := by
    refine ⟨List.cons_ne_nil _ _, fun c hc => ?_⟩
    rw [List.eq_of_mem_replicate hc]
    rfl
  refine ⟨?_, ?_, by decide +kernel, rfl⟩
  · have hjson {x : List Char} {d : Datum}
        (h : Begins .none 200 (x ++ ['}']) (.value d) ['}']) :
        ∃ members, Says .none 201 (besides x) (.object members) ∧
          lastNamed? "expression".toList members = some (.string (unitsOf "1".toList)) ∧
          lastNamed? "function".toList members = none :=
      ⟨_, says_besides (fun _ => trivial) h, rfl, rfl⟩
    refine List.forall_mem_cons.mpr ⟨?_, List.forall_mem_cons.mpr ⟨?_, ?_⟩⟩
    · have hd : IsHexDigit 'd' 13 := .inl rfl
      have h8 : IsHexDigit '8' 8 := .inl rfl
      have h0 : IsHexDigit '0' 0 := .inl rfl
      exact hjson (.string (.unit hd h8 h0 h0 (.quote ['}'])) trivial)
    · refine hjson (.number (isNumber_of_isDigits hdigits fun hzero => ?_) trivial ['}'])
      cases hzero
    · rcases exists_begins_nested (l := .none) trivial 200 ['}'] with ⟨d, hd⟩
      exact List.forall_mem_singleton.mpr (hjson hd)
  · have hbinds : Network.ofOwnFamily.binds socketFamily s.endpoint = true := rfl
    have hcontent : ∀ line ∈ [half, long, deep], IsContent line := by
      refine List.forall_mem_cons.mpr ⟨isContent_besides (by decide), ?_⟩
      refine List.forall_mem_cons.mpr ⟨isContent_besides fun c hc => ?_, ?_⟩
      · rw [List.eq_of_mem_replicate hc]
        rfl
      · have hmarks : Unbroken ['[', '1', ']'] := by decide
        exact List.forall_mem_singleton.mpr
          (isContent_besides fun c hc => hmarks c (mem_nested hc))
    have hrefused : ∀ line ∈ [half, long, deep], read? line = none := by
      have hlength : 4300 < (List.replicate 4301 '1').length := by
        rw [List.length_replicate]
        exact Nat.lt_succ_self 4300
      have hdeep : read? (besides (nested 200)) = none := read?_besides_nested (by decide)
      refine List.forall_mem_cons.mpr ⟨read?_besides_half rfl (by decide), ?_⟩
      refine List.forall_mem_cons.mpr ⟨read?_besides_of_isDigits hdigits hlength, ?_⟩
      exact List.forall_mem_singleton.mpr hdeep
    rcases exists_session_of_refused s hbinds Nat.one_pos [] hcontent hrefused with
      ⟨session, outcomes, hserve, hreply, hexpressions⟩
    refine ⟨session, outcomes, hserve, hreply, hexpressions, fun o ho hone => ?_⟩
    -- The lines begin with a brace.
    have hhead : ∀ line ∈ [half, long, deep], line.head? = some '{' :=
      List.forall_mem_cons.mpr ⟨rfl, List.forall_mem_cons.mpr ⟨rfl, List.forall_mem_singleton.mpr rfl⟩⟩
    have hmem := List.mem_map_of_mem (f := (·.expression)) ho
    rw [hexpressions, hone] at hmem
    rcases List.mem_map.mp hmem with ⟨line, hline, heq⟩
    have hbrace := hhead line hline
    rw [← String.toList_ofList (l := line), heq] at hbrace
    exact absurd hbrace (by decide)

end Server

end Reckoner.Net
