import Reckoner.Proofs.Net.Replies
import Reckoner.Proofs.Text.Utf8

/-!
# Isolation — a line has its requests to itself

What is sent on one line makes no difference to the requests of another one. A line feed is a
character by itself, whatever malformed bytes stand before or behind it, and it is a break, even if
a carriage return stands before it. So the requests of the bytes before it and of the bytes behind
it are those of the whole.
-/

namespace Reckoner.Net

open Text

/-- The lines with content before a line feed, and those behind it. -/
theorem contentLines_decodeLossy_append (front back : List UInt8) :
    contentLines (Utf8.decodeLossy (front ++ 0x0A :: back)) =
      contentLines (Utf8.decodeLossy front) ++ contentLines (Utf8.decodeLossy back) := by
  have hlow : (0x0A : UInt8).toNat < 0x80 := by decide
  rw [Utf8.decodeLossy_append_of_lt front hlow back]
  exact contentLines_append_break (by decide) _ _

namespace Server

theorem requestsOfText_eq_ok_append {s : Server} {whole front back : List Char}
    {before after : List Request}
    (hlines : contentLines whole = contentLines front ++ contentLines back)
    (hfront : s.requestsOfText front = .ok before) (hback : s.requestsOfText back = .ok after) :
    s.requestsOfText whole = .ok (before ++ after) := by
  rw [requestsOfText] at hfront hback ⊢
  rw [hlines, List.mapM_append, hfront, hback]
  rfl

/-- However three payloads are cut into chunks, and whatever their bytes are: if the third one is
the other two with a line feed between them, its requests are theirs, one after the other. -/
theorem receive_append_newline (s : Server) {front back whole : List (List UInt8)}
    (hwhole : (received whole).flatten =
      (received front).flatten ++ 0x0A :: (received back).flatten) :
    ∃ before after, s.receive front = .ok before ∧ s.receive back = .ok after ∧
      s.receive whole = .ok (before ++ after) := by
  obtain ⟨before, hfront, -⟩ := s.exists_receive front
  obtain ⟨after, hback, -⟩ := s.exists_receive back
  refine ⟨before, after, hfront, hback, ?_⟩
  refine requestsOfText_eq_ok_append ?_ hfront hback
  rw [hwhole, contentLines_decodeLossy_append]

/-- Without the line feed, the bytes of the two payloads would be one character. -/
theorem receive_append_newline_cut_character :
    let server : Server := ⟨⟨.loopback, Endpoint.defaultPort⟩, "f"⟩
    let front : List (List UInt8) := [[0x31, 0xE2], [0x82]]
    let back : List (List UInt8) := [[0xAC, 0x0D]]
    let whole : List (List UInt8) := [[0x31, 0xE2, 0x82, 0x0A, 0xAC], [0x0D]]
    (received whole).flatten = (received front).flatten ++ 0x0A :: (received back).flatten ∧
      ∃ before after, server.receive front = .ok before ∧ server.receive back = .ok after ∧
        server.receive whole = .ok (before ++ after) ∧
        (before ++ after).map (·.expression) = ["1\uFFFD", "\uFFFD"] := by
  intro server front back whole
  have hwhole : (received whole).flatten =
      (received front).flatten ++ 0x0A :: (received back).flatten := by decide
  obtain ⟨before, after, hfront, hback, hall⟩ := receive_append_newline server hwhole
  refine ⟨hwhole, before, after, hfront, hback, hall, ?_⟩
  have hread : server.receive whole =
      .ok [⟨"1\uFFFD", "f", by decide⟩, ⟨"\uFFFD", "f", by decide⟩] := by decide +kernel
  rw [Except.ok.inj (hall.symm.trans hread)]
  rfl

end Server

end Reckoner.Net
