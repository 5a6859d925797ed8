import CppServer.Lib.Framing
import CppServer.Http.Manager
import CppServer.Http.Body
import CppServer.Logger.Formatter

/-!
# The replies of `HandleError`

`HandleError` with the whole of its domain: any `int`, and any bytes as the message.  What it
leaves in the write buffer is read back by `Reply.decode`, which knows nothing of how it was made:
it cuts at the first empty line, splits the header into lines, and the lines into fields.

* `stoi_decimal` — what `operator<<` writes for an `int` is what `std::stoi` reads.
* `decode_responseText` — the reply comes apart into the parts it was made of.
-/

namespace CppServer.Http

open Function (update update_self)

/-! ## What the source writes -/

/-- `response_body.str()` -/
def responseBody (errorNum : Int32) (msg : List UInt8) : List UInt8 :=
  bytes "<html><title>something is wrong</title>" ++ bytes "<body bgcolor=\"ffffff\">" ++
    Logger.decimal errorNum.toInt ++ msg ++ bytes "<hr><em> CppServer</em>\n</body></html>"

/-- `response_header.str()` -/
def responseHeader (errorNum : Int32) (msg body : List UInt8) : List UInt8 :=
  bytes "HTTP/1.1 " ++ Logger.decimal errorNum.toInt ++ msg ++ bytes "\r\n" ++
    bytes "Content-Type: text/html\r\n" ++ bytes "Connection: Close\r\n" ++
    bytes "Content-Length: " ++ Logger.decimal body.length ++ bytes "\r\n" ++
    bytes "Server: LinYa's Web Server\r\n" ++ bytes "\r\n"

/-- The string `header` of `HandleError`, when the body is in it. -/
def responseText (errorNum : Int32) (msg : List UInt8) : List UInt8 :=
  let msg := bytes " " ++ msg
  let body := responseBody errorNum msg
  responseHeader errorNum msg body ++ body

namespace Memory

variable {κ : Type*} [DecidableEq κ]

/-- `HttpParser::HandleError` up to its `connection_->Write()`. -/
def handleErrorBeforeWrite (m : Memory κ) (errorNum : Int32) (msg : List UInt8) :
    Except Stuck (Memory κ) :=
  match m.parser.connection with
  | none => .error .undefined
  | some c =>
      let conn := (m.connections c).setWriteBuffer (responseText errorNum msg ++ [0])
      .ok { m with connections := update m.connections c conn }

/-- `connection_->Write()` -/
def write (m : Memory κ) (writes : List WriteResult) : Except Stuck (Memory κ) :=
  match m.parser.connection with
  | none => .error .undefined
  | some c => ((m.connections c).write writes).map fun o =>
      { m with connections := update m.connections c o.conn }

end Memory

/-! ## Decimal numbers -/

lemma bytes_append (a b : String) : bytes (a ++ b) = bytes a ++ bytes b := by
  simp [bytes]

lemma decimal_eq_map (n : ℕ) :
    decimal n = (Nat.toDigits 10 n).map fun c => c.toNat.toUInt8 := by
  rw [decimal, bytes, Nat.toString_eq_ofList_toDigits, String.toList_ofList]

lemma decimal_ne_nil (n : ℕ) : decimal n ≠ [] := by
  rw [decimal_eq_map]
  simp

/-- The character of a digit, as a byte. -/
lemma toUInt8_toNat_of_isDigit {c : Char} (hc : c.isDigit = true) :
    c.toNat.toUInt8.toNat = c.toNat ∧ 48 ≤ c.toNat ∧ c.toNat ≤ 57 := by
  have hbounds : 48 ≤ c.toNat ∧ c.toNat ≤ 57 := by
    simp only [Char.isDigit, Bool.and_eq_true, decide_eq_true_eq] at hc
    exact hc
  refine ⟨?_, hbounds⟩
  have hsmall : c.toNat < 256 := by omega
  simp [Nat.mod_eq_of_lt hsmall]

/-- A number is written in digits. -/
lemma decimal_digits (n : ℕ) : (decimal n).all isDigit = true := by
  rw [decimal_eq_map, List.all_map, List.all_eq_true]
  intro c hc
  obtain ⟨hval, hlow, hhigh⟩ :=
    toUInt8_toNat_of_isDigit (Nat.isDigit_of_mem_toDigits (by decide) (by decide) hc)
  simp only [Function.comp_apply, isDigit, Bool.and_eq_true, decide_eq_true_eq, UInt8.le_iff_toNat_le]
  rw [hval]
  exact ⟨hlow, hhigh⟩

/-- The digits of a number denote it. -/
lemma digitsValue_decimal (n : ℕ) : digitsValue (decimal n) = n := by
  have hfold : ∀ (cs : List Char) (k : ℕ), (∀ c ∈ cs, c.isDigit = true) →
      (cs.map fun c => c.toNat.toUInt8).foldl (fun n c => 10 * n + (c.toNat - 48)) k
        = Nat.ofDigitChars 10 cs k := by
    intro cs
    induction cs with
    | nil => simp
    | cons c cs ih =>
        intro k h
        obtain ⟨hval, -, -⟩ := toUInt8_toNat_of_isDigit (h c List.mem_cons_self)
        rw [List.map_cons, List.foldl_cons, ih _ fun d hd => h d (List.mem_cons_of_mem c hd), hval,
          Nat.ofDigitChars_cons]
        rfl
  rw [digitsValue, decimal_eq_map, hfold _ 0 fun c hc =>
    Nat.isDigit_of_mem_toDigits (by decide) (by decide) hc, Nat.ofDigitChars_ten_toDigits]

lemma decimal_natCast (n : ℕ) : Logger.decimal n = decimal n := rfl

lemma decimal_negSucc (n : ℕ) : Logger.decimal (Int.negSucc n) = 45 :: decimal (n + 1) := by
  have h : toString (Int.negSucc n) = "-" ++ toString (n + 1) := rfl
  rw [Logger.decimal, ofLiteral, h]
  simp [decimal, bytes]

/-- An integer is written in digits, with a sign in front if it is negative. -/
lemma mem_decimal {k : ℤ} {b : UInt8} (h : b ∈ Logger.decimal k) : isDigit b = true ∨ b = 45 := by
  cases k with
  | ofNat n => exact .inl (List.all_eq_true.mp (decimal_digits n) b h)
  | negSucc n =>
      rw [decimal_negSucc, List.mem_cons] at h
      rcases h with h | h
      · exact .inr h
      · exact .inl (List.all_eq_true.mp (decimal_digits (n + 1)) b h)

/-- **What `operator<<` writes for an `int` is what `std::stoi` reads.** -/
theorem stoi_decimal {k : ℤ} (hlow : -2 ^ 31 ≤ k) (hhigh : k < 2 ^ 31) :
    stoi (Logger.decimal k) = .ok k := by
  cases k with
  | ofNat n =>
      have hn : n < 2 ^ 31 := by
        rw [Int.ofNat_eq_natCast] at hhigh
        exact_mod_cast hhigh
      rw [show Logger.decimal (Int.ofNat n) = decimal n from rfl,
        stoi_digits (decimal_ne_nil n) (decimal_digits n), digitsValue_decimal,
        if_neg (Nat.not_le.mpr hn)]
      rfl
  | negSucc n =>
      have htake : (decimal (n + 1)).takeWhile isDigit = decimal (n + 1) :=
        List.takeWhile_eq_self_iff.mpr (List.all_eq_true.mp (decimal_digits (n + 1)))
      have hvalue : -(digitsValue (decimal (n + 1)) : ℤ) = Int.negSucc n := by
        rw [digitsValue_decimal]
        rfl
      have hdrop : (45 :: decimal (n + 1)).dropWhile isSpace = 45 :: decimal (n + 1) := rfl
      rw [decimal_negSucc, stoi]
      simp only [hdrop, splitSign, htake, decimal_ne_nil, hvalue, if_true, if_false]
      rw [if_neg (by omega)]

/-! ## Reading a reply -/

/-- An HTTP response. -/
structure Reply where
  version : List UInt8
  status : ℤ
  reason : List UInt8
  fields : List (List UInt8 × List UInt8)
  body : List UInt8
  deriving DecidableEq, Repr

namespace Reply

/-- The version, the status and the reason in the first line. -/
def splitStatusLine (line : List UInt8) : Option (List UInt8 × ℤ × List UInt8) :=
  (cut [32] line).bind fun p => (cut [32] p.2).bind fun q =>
    (stoi q.1).toOption.map fun status => (p.1, status, q.2)

/-- The response in a series of bytes. -/
def decode (text : List UInt8) : Option Reply :=
  (cut blankLine text).bind fun p =>
    match crlfLines p.1 with
    | [] => none
    | line :: lines =>
        (splitStatusLine line).bind fun s => (lines.mapM (cut (bytes ": "))).map fun fields =>
          { version := s.1, status := s.2.1, reason := s.2.2, fields, body := p.2 }

/-- `tolower` in the C locale -/
def toLower (c : UInt8) : UInt8 := if 65 ≤ c ∧ c ≤ 90 then c + 32 else c

/-- The values of the fields of a name, in which case makes no difference. -/
def values (r : Reply) (name : List UInt8) : List (List UInt8) :=
  (r.fields.filter fun f => f.1.map toLower = name.map toLower).map Prod.snd

end Reply

/-! ## The reply comes apart -/

/-- The first line of a reply, as the source writes it. -/
def statusLine (errorNum : Int32) (msg : List UInt8) : List UInt8 :=
  bytes "HTTP/1.1 " ++ Logger.decimal errorNum.toInt ++ bytes " " ++ msg

/-- The lines of its header. -/
def headerLines (errorNum : Int32) (msg : List UInt8) (length : ℕ) : List (List UInt8) :=
  [statusLine errorNum msg, bytes "Content-Type: text/html", bytes "Connection: Close",
    bytes "Content-Length: " ++ decimal length, bytes "Server: LinYa's Web Server"]

/-- The reply that is meant. -/
def errorReplyOf (errorNum : Int32) (msg : List UInt8) : Reply :=
  let body := responseBody errorNum (bytes " " ++ msg)
  { version := bytes "HTTP/1.1", status := errorNum.toInt, reason := msg
    fields := [(bytes "Content-Type", bytes "text/html"), (bytes "Connection", bytes "Close"),
      (bytes "Content-Length", decimal body.length), (bytes "Server", bytes "LinYa's Web Server")]
    body }

variable (errorNum : Int32) (msg : List UInt8)

/-- The text is a framed message. -/
lemma responseText_eq_frame :
    responseText errorNum msg
      = frame (headerLines errorNum msg (responseBody errorNum (bytes " " ++ msg)).length)
          (responseBody errorNum (bytes " " ++ msg)) := by
  have hend : bytes "\r\n" = crlf := rfl
  have htype : bytes "Content-Type: text/html\r\n" = bytes "Content-Type: text/html" ++ crlf := rfl
  have hclose : bytes "Connection: Close\r\n" = bytes "Connection: Close" ++ crlf := rfl
  have hserver :
      bytes "Server: LinYa's Web Server\r\n" = bytes "Server: LinYa's Web Server" ++ crlf := rfl
  simp only [responseText, responseHeader, frame, headerLines, statusLine, hend, htype, hclose,
    hserver, decimal_natCast, List.map_cons, List.map_nil, List.flatten_cons, List.flatten_nil,
    List.append_assoc, List.append_nil]

/-- A byte that is no digit and no sign is in no number. -/
lemma notMem_decimal {b : UInt8} (hdigit : isDigit b = false) (hsign : b ≠ 45) (k : ℤ) :
    b ∉ Logger.decimal k := by
  intro h
  rcases mem_decimal h with hb | hb
  · simp [hdigit] at hb
  · exact hsign hb

lemma statusLine_notMem {b : UInt8} (hdigit : isDigit b = false) (hsign : b ≠ 45)
    (hliteral : b ∉ bytes "HTTP/1.1 ") (hmsg : b ∉ msg) : b ∉ statusLine errorNum msg := by
  have hspace : b ∉ bytes " " := fun h => hliteral (by
    rw [show bytes "HTTP/1.1 " = bytes "HTTP/1.1" ++ bytes " " from rfl]
    exact List.mem_append_right _ h)
  simp only [statusLine, List.mem_append, not_or]
  exact ⟨⟨⟨hliteral, notMem_decimal hdigit hsign _⟩, hspace⟩, hmsg⟩

/-- A message without CR breaks no line of the header. -/
lemma isLine_headerLines {msg : List UInt8} (hmsg : 13 ∉ msg) (length : ℕ) :
    ∀ l ∈ headerLines errorNum msg length, IsLine l := by
  have hlength : (13 : UInt8) ∉ bytes "Content-Length: " ++ decimal length := by
    rw [List.mem_append, not_or]
    exact ⟨by decide, notMem_decimal (by decide) (by decide) length⟩
  intro l hl
  simp only [headerLines, List.mem_cons, List.not_mem_nil, or_false] at hl
  rcases hl with rfl | rfl | rfl | rfl | rfl
  · refine ⟨by simp [statusLine, bytes], ?_⟩
    exact statusLine_notMem errorNum msg (by decide) (by decide) (by decide) hmsg
  · exact ⟨by decide, by decide⟩
  · exact ⟨by decide, by decide⟩
  · exact ⟨by simp [bytes], hlength⟩
  · exact ⟨by decide, by decide⟩

lemma splitStatusLine_statusLine :
    Reply.splitStatusLine (statusLine errorNum msg)
      = some (bytes "HTTP/1.1", errorNum.toInt, msg) := by
  have hversion : cut [32] (statusLine errorNum msg)
      = some (bytes "HTTP/1.1", Logger.decimal errorNum.toInt ++ (bytes " " ++ msg)) := by
    have hline : statusLine errorNum msg
        = bytes "HTTP/1.1" ++ ([32] ++ (Logger.decimal errorNum.toInt ++ (bytes " " ++ msg))) := by
      rw [statusLine, show bytes "HTTP/1.1 " = bytes "HTTP/1.1" ++ [32] from rfl]
      simp only [List.append_assoc]
    rw [hline]
    exact cut_of_notMem (by decide) _
  have hcode : cut [32] (Logger.decimal errorNum.toInt ++ (bytes " " ++ msg))
      = some (Logger.decimal errorNum.toInt, msg) :=
    cut_of_notMem (notMem_decimal (by decide) (by decide) _) msg
  have hstatus : stoi (Logger.decimal errorNum.toInt) = .ok errorNum.toInt :=
    stoi_decimal errorNum.le_toInt errorNum.toInt_lt
  simp only [Reply.splitStatusLine, hversion, hcode, hstatus, Option.bind_some, Except.toOption,
    Option.map_some]

/-- The length of the body is a field of its own. -/
lemma cut_contentLength (length : ℕ) :
    cut (bytes ": ") (bytes "Content-Length: " ++ decimal length)
      = some (bytes "Content-Length", decimal length) := by
  have hname : (58 : UInt8) ∉ bytes "Content-Length" := by decide
  exact cut_of_notMem hname (decimal length)

/-- **The reply comes apart into the parts it was made of**, if the message does not break the
first line. -/
theorem decode_responseText {msg : List UInt8} (hmsg : 13 ∉ msg) :
    Reply.decode (responseText errorNum msg) = some (errorReplyOf errorNum msg) := by
  set body := responseBody errorNum (bytes " " ++ msg)
  have hlines := isLine_headerLines errorNum hmsg body.length
  have hne : headerLines errorNum msg body.length ≠ [] := by simp [headerLines]
  have hfields : [bytes "Content-Type: text/html", bytes "Connection: Close",
      bytes "Content-Length: " ++ decimal body.length, bytes "Server: LinYa's Web Server"].mapM
        (cut (bytes ": ")) = some (errorReplyOf errorNum msg).fields := by
    have htype : cut (bytes ": ") (bytes "Content-Type: text/html")
        = some (bytes "Content-Type", bytes "text/html") := by decide
    have hclose : cut (bytes ": ") (bytes "Connection: Close")
        = some (bytes "Connection", bytes "Close") := by decide
    have hserver : cut (bytes ": ") (bytes "Server: LinYa's Web Server")
        = some (bytes "Server", bytes "LinYa's Web Server") := by decide
    simp only [List.mapM_cons, List.mapM_nil, htype, hclose, hserver, cut_contentLength,
      Option.pure_def, Option.bind_eq_bind, Option.bind_some]
    rfl
  rw [Reply.decode, responseText_eq_frame, cut_frame body hne hlines, Option.bind_some,
    crlfLines_joinLines hne hlines]
  simp only [headerLines, splitStatusLine_statusLine, Option.bind_some, hfields, Option.map_some]
  rfl

/-! ## What the write buffer holds -/

/-- No part of the text has a NUL: no literal, no number, and not the message. -/
lemma responseText_nulFree {msg : List UInt8} (hmsg : 0 ∉ msg) : 0 ∉ responseText errorNum msg := by
  have hnumber : ∀ k : ℤ, (0 : UInt8) ∉ Logger.decimal k := notMem_decimal (by decide) (by decide)
  have hspace : (0 : UInt8) ∉ bytes " " ++ msg := by
    rw [List.mem_append, not_or]
    exact ⟨by decide, hmsg⟩
  have hbody : (0 : UInt8) ∉ responseBody errorNum (bytes " " ++ msg) := by
    rw [responseBody, List.mem_append, List.mem_append, List.mem_append, List.mem_append]
    simp only [not_or]
    exact ⟨⟨⟨⟨by decide, by decide⟩, hnumber _⟩, hspace⟩, by decide⟩
  rw [responseText_eq_frame, frame, List.mem_append, List.mem_append]
  simp only [not_or, List.mem_flatten, List.mem_map, not_exists, not_and]
  refine ⟨⟨?_, by decide⟩, hbody⟩
  rintro _ ⟨l, hl, rfl⟩
  rw [List.mem_append, not_or]
  refine ⟨?_, by decide⟩
  simp only [headerLines, List.mem_cons, List.not_mem_nil, or_false] at hl
  rcases hl with rfl | rfl | rfl | rfl | rfl
  · exact statusLine_notMem errorNum msg (by decide) (by decide) (by decide) hmsg
  · decide
  · decide
  · rw [List.mem_append, not_or]
    exact ⟨by decide, hnumber (_ : ℕ)⟩
  · decide

/-- Among the fields there is one that announces a length. -/
lemma values_errorReplyOf : (errorReplyOf errorNum msg).values (bytes "Content-Length")
    = [decimal (responseBody errorNum (bytes " " ++ msg)).length] := rfl

/-- What a reply should be: `header` and `reply` are what the bytes come to when they are split at
the first empty line, and what they say is what the caller of `HandleError` has said. -/
structure Framed (sent header : List UInt8) (reply : Reply) : Prop where
  split : sent = header ++ blankLine ++ reply.body
  first : ∀ a b, sent = a ++ blankLine ++ b → header.length ≤ a.length
  firstLine : (crlfLines header).head? = some (statusLine errorNum msg)
  decodes : Reply.decode sent = some reply
  status : reply.status = errorNum.toInt
  reason : reply.reason = msg
  contentLength : ∃ value, reply.values (bytes "Content-Length") = [value] ∧ value ≠ [] ∧
    value.all isDigit = true ∧ digitsValue value = reply.body.length

lemma framed_responseText {msg : List UInt8} (hmsg : 13 ∉ msg) :
    Framed errorNum msg (responseText errorNum msg)
      (joinLines (headerLines errorNum msg (responseBody errorNum (bytes " " ++ msg)).length))
      (errorReplyOf errorNum msg) := by
  have hlines := isLine_headerLines errorNum hmsg (responseBody errorNum (bytes " " ++ msg)).length
  have hne : headerLines errorNum msg (responseBody errorNum (bytes " " ++ msg)).length ≠ [] := by
    simp [headerLines]
  obtain ⟨hsplit, hfirst⟩ := cut_eq_some_iff.mp
    (cut_frame (responseBody errorNum (bytes " " ++ msg)) hne hlines)
  rw [← responseText_eq_frame] at hsplit hfirst
  exact {
    split := hsplit
    first := hfirst
    firstLine := by
      rw [crlfLines_joinLines hne hlines]
      rfl
    decodes := decode_responseText errorNum hmsg
    status := rfl
    reason := rfl
    contentLength := ⟨_, values_errorReplyOf errorNum msg, decimal_ne_nil _, decimal_digits _,
      digitsValue_decimal _⟩ }

/-- The bytes are the reply to one number and one message only, and come apart in one way. -/
lemma Framed.unique {errorNum errorNum' : Int32} {msg msg' sent header header' : List UInt8}
    {reply reply' : Reply} (h : Framed errorNum msg sent header reply)
    (h' : Framed errorNum' msg' sent header' reply') :
    errorNum' = errorNum ∧ msg' = msg ∧ header' = header ∧ reply' = reply := by
  have hreply : reply' = reply := Option.some.inj (h'.decodes.symm.trans h.decodes)
  have hcut := cut_eq_some_iff.mpr ⟨h.split, h.first⟩
  have hcut' := cut_eq_some_iff.mpr ⟨h'.split, h'.first⟩
  have hnum : errorNum'.toInt = errorNum.toInt := by rw [← h'.status, hreply, h.status]
  refine ⟨Int32.toInt_inj.mp hnum, by rw [← h'.reason, hreply, h.reason], ?_, hreply⟩
  exact (Prod.mk.inj (Option.some.inj (hcut'.symm.trans hcut))).1

/-! ## The result -/

variable {κ : Type*} [DecidableEq κ]

/-- **The whole of `HandleError`** is the text in the write buffer and then the `Write`, for a number
and a message as they stand in the source. -/
theorem handleError_eq (m : Memory κ) {n : ℕ} (hn : n < 2 ^ 31) (text : String)
    (writes : List WriteResult) :
    m.handleError n text writes
      = (m.handleErrorBeforeWrite (Int32.ofNat n) (bytes text)).bind fun m' => m'.write writes := by
  have hnum : (Int32.ofNat n).toInt = n := Int32.toInt_ofNat_of_lt hn
  have hreply : errorReply n text = responseText (Int32.ofNat n) (bytes text) := by
    simp only [errorReply, responseText, responseHeader, responseBody, hnum, bytes_append,
      decimal_natCast]
  cases hc : m.parser.connection with
  | none => simp only [Memory.handleError, Memory.handleErrorBeforeWrite, hc, Except.bind]
  | some c =>
      simp only [Memory.handleError, Memory.handleErrorBeforeWrite, Memory.write, hc, Except.bind,
        update_self, hreply, Function.update_idem]

/-- **Error replies are framed.**  For every `int` and every message without CR, LF and NUL, the
write buffer holds the whole text when `HandleError` comes to its `Write`, and the text comes apart
at its first empty line into a header that says what the caller has said, with the length of the
body, and that body.  There is no other way to read it. -/
theorem handleError_framed (m : Memory κ) {c : κ} (hc : m.parser.connection = some c)
    (errorNum : Int32) {msg : List UInt8} (hmsg : ∀ b ∈ msg, b ≠ 13 ∧ b ≠ 10 ∧ b ≠ 0) :
    ∃ m', m.handleErrorBeforeWrite errorNum msg = .ok m' ∧
      (m'.connections c).writeBuffer.buf = responseText errorNum msg ∧
      ∃ header reply, Framed errorNum msg (m'.connections c).writeBuffer.buf header reply ∧
        ∀ errorNum' msg' header' reply',
          Framed errorNum' msg' (m'.connections c).writeBuffer.buf header' reply' →
            errorNum' = errorNum ∧ msg' = msg ∧ header' = header ∧ reply' = reply := by
  have hcr : 13 ∉ msg := fun h => (hmsg 13 h).1 rfl
  have hnul : 0 ∉ msg := fun h => (hmsg 0 h).2.2 rfl
  have hbuf : ((m.connections c).setWriteBuffer (responseText errorNum msg ++ [0])).writeBuffer.buf
      = responseText errorNum msg :=
    Buffer.cString_cstr (b := ⟨responseText errorNum msg⟩) (responseText_nulFree errorNum hnul)
  refine ⟨_, by rw [Memory.handleErrorBeforeWrite, hc], ?_⟩
  simp only [update_self, hbuf]
  have hframed := framed_responseText errorNum hcr
  exact ⟨trivial, _, _, hframed, fun _ _ _ _ h => hframed.unique h⟩

/-- A parser bound to a connection. -/
def boundParser : Memory Unit where
  parser := { (HttpParser.fresh : HttpParser Unit) with connection := some () }
  connections _ := Connection.fresh 5

theorem handleError_framed_badRequest :
    ∃ m', boundParser.handleErrorBeforeWrite 400 (bytes "Bad Request") = .ok m' ∧
      (m'.connections ()).writeBuffer.buf = responseText 400 (bytes "Bad Request") := by
  have hbytes : bytes "Bad Request" = [66, 97, 100, 32, 82, 101, 113, 117, 101, 115, 116] := rfl
  have hmsg : ∀ b ∈ bytes "Bad Request", b ≠ 13 ∧ b ≠ 10 ∧ b ≠ 0 := by
    rw [hbytes]
    simp
  obtain ⟨m', hm', hbuf, -⟩ := handleError_framed boundParser rfl 400 hmsg
  exact ⟨m', hm', hbuf⟩

end CppServer.Http
