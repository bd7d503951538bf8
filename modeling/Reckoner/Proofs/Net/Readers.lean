import Reckoner.Proofs.Net.Framing
import Reckoner.Proofs.Text.Breaks

/-!
# Readers — the two ways to requests agree

A client makes the requests of a file itself, and a server makes them of the bytes of the file if
these are sent as they stand. The client is strict about the bytes and makes the breaks of the text
plain first; the server replaces what is malformed and tries each line as JSON. On bytes that can be
decoded, and lines none of which is a request already, this makes no difference.
-/

namespace Reckoner.Net

open Text

-- Each line with content makes a request.
theorem Client.exists_requests {ls : List (List Char)} (h : ∀ l ∈ ls, IsContent l) (function : String) :
    ∃ requests,
      (ls.mapM fun l => Request.bare (String.ofList l) (.string function)) = .ok requests ∧
      (requests.map fun r => (r.expression, r.function)) =
        ls.map fun l => (String.ofList l, function) := by
  rcases exists_mapM_eq_ok (f := fun l => Request.bare (String.ofList l) (.string function))
    (R := fun l r => (String.ofList l, function) = (r.expression, r.function)) fun l hl =>
      ⟨_, Request.bare_eq_ok (h l hl).isBlankText function, rfl⟩ with ⟨requests, hrequests, hfields⟩
  refine ⟨requests, hrequests, ?_⟩
  rw [← List.forall₂_map_right_iff, ← List.forall₂_map_left_iff, List.forall₂_eq_eq_eq] at hfields
  exact hfields.symm

-- The requests of a file, without the breaks being made plain first.
theorem Client.requestsOfFile_of_decode? {bytes : List UInt8} {text : List Char}
    (h : Utf8.decode? bytes = some text) (function : Json.Value) :
    requestsOfFile bytes function = check ((contentLines text).mapM fun l =>
      Request.bare (String.ofList l) function) := by
  rw [requestsOfFile, h]
  simp only [contentLines_plainBreaks]

namespace Server

-- A line that is no request by itself is an expression for the server's own function.
theorem request_of_ofText_ne_ok (s : Server) {line : String}
    (h : ∀ r, Request.ofText line ≠ .ok r) :
    s.request line = Request.bare line (.string s.function) := by
  cases hread : Request.ofText line with
  | error faults => rw [request, hread]
  | ok r => exact absurd hread (h r)

-- Lines that are all no requests by themselves are read as a client reads the lines of its file.
theorem requestsOfText_of_bare (s : Server) {text : List Char}
    (h : ∀ l ∈ contentLines text, ∀ r, Request.ofText (String.ofList l) ≠ .ok r)
    {requests : List Request}
    (hrequests : ((contentLines text).mapM fun l =>
      Request.bare (String.ofList l) (.string s.function)) = .ok requests) :
    s.requestsOfText text = .ok requests := by
  rw [requestsOfText, mapM_eq_ok_iff]
  refine ((List.forall₂_and_left _ _).mpr ⟨h, mapM_eq_ok_iff.mp hrequests⟩).imp ?_
  rintro l r ⟨hbare, hr⟩
  rw [s.request_of_ofText_ne_ok hbare, hr]

/-- Bytes that can be decoded, and have no line that is a request, are the same requests to a server
that is sent them in any chunks as to a client that has them in a file: one for each line with
content, for the server's own function. -/
theorem receive_eq_requestsOfFile (s : Server) {chunks : List (List UInt8)} {bytes : List UInt8}
    {text : List Char} (hchunks : ∀ chunk ∈ chunks, chunk ≠ []) (hbytes : chunks.flatten = bytes)
    (htext : Utf8.decode? bytes = some text)
    (hbare : ∀ l ∈ contentLines text, ∀ r, Request.ofText (String.ofList l) ≠ .ok r) :
    ∃ requests, s.receive chunks = .ok requests ∧
      Client.requestsOfFile bytes (.string s.function) = .ok requests ∧
      (requests.map fun r => (r.expression, r.function)) =
        (contentLines text).map fun l => (String.ofList l, s.function) := by
  rcases Client.exists_requests (fun l hl => isContent_of_mem_contentLines hl) s.function with
    ⟨requests, hrequests, hfields⟩
  refine ⟨requests, ?_, ?_, hfields⟩
  · rw [receive, received_eq hchunks, hbytes, Utf8.decodeLossy_of_decode? htext]
    exact s.requestsOfText_of_bare hbare hrequests
  · rw [Client.requestsOfFile_of_decode? htext, hrequests]
    rfl

/-- Breaks of four kinds, blanks around them, and an object that is no request, each byte a chunk of
its own. -/
theorem receive_eq_requestsOfFile_bytewise :
    let s : Server := ⟨⟨.loopback, Endpoint.defaultPort⟩, "f"⟩
    let text : List Char := " 1\r\n\r \r\x7b\"expression\":\" \"\x7d\u2028\x1f\u0085é 2\t".toList
    let chunks : List (List UInt8) := (Utf8.encode text).map fun b => [b]
    (∀ chunk ∈ chunks, chunk ≠ []) ∧ chunks.flatten = Utf8.encode text ∧
      Utf8.decode? (Utf8.encode text) = some text ∧
      (∀ l ∈ contentLines text, ∀ r, Request.ofText (String.ofList l) ≠ .ok r) ∧
      ∃ requests, s.receive chunks = .ok requests ∧
        Client.requestsOfFile (Utf8.encode text) (.string "f") = .ok requests ∧
        (requests.map fun r => (r.expression, r.function)) =
          [("1", "f"), ("\x7b\"expression\":\" \"\x7d", "f"), ("é 2", "f")] := by
  intro s text chunks
  rcases flatten_map_singleton (Utf8.encode text) with ⟨hchunks, hbytes⟩
  have htext := Utf8.decode?_encode text
  have hlines : contentLines text =
      ["1".toList, "\x7b\"expression\":\" \"\x7d".toList, "é 2".toList] := by decide +kernel
  have hbare : ∀ l ∈ contentLines text, ∀ r, Request.ofText (String.ofList l) ≠ .ok r := by
    have hnone : ∀ l ∈ contentLines text,
        (Request.ofText (String.ofList l)).toOption.isNone = true := by decide +kernel
    intro l hl r hr
    have hl := hnone l hl
    rw [hr] at hl
    exact nomatch hl
  refine ⟨hchunks, hbytes, htext, hbare, ?_⟩
  rcases s.receive_eq_requestsOfFile hchunks hbytes htext hbare with
    ⟨requests, hreceive, hfile, hfields⟩
  rw [hlines] at hfields
  exact ⟨requests, hreceive, hfile, hfields⟩

end Server

end Reckoner.Net
