/-!
# Status codes

A status code has three digits: 100 to 999. Its first digit gives its family, and some codes have a
reason phrase.

## Main definitions

* `Status`, `Status.ofNat?` — codes, and which numbers are codes
* `Status.text` — the code with its reason phrase
* `Status.family` — the family in the upper-case form of dashboards
* `Status.orServerError` — the status under which a failure is answered
-/

namespace TimedHttp

/-- **Status code** of a response. -/
structure Status where
  code : Nat
  three_digits : 100 ≤ code ∧ code ≤ 999 := by decide
  deriving DecidableEq

namespace Status

/-- The status of a number, if it has three digits. -/
def ofNat? (code : Nat) : Option Status :=
  if h : 100 ≤ code ∧ code ≤ 999 then some ⟨code, h⟩ else none

theorem ofNat?_code (s : Status) : ofNat? s.code = some s := by
  simp [ofNat?, s.three_digits]

def ok : Status := { code := 200 }
def created : Status := { code := 201 }
def badRequest : Status := { code := 400 }
def notFound : Status := { code := 404 }
def internalServerError : Status := { code := 500 }

def isRedirection (s : Status) : Bool := 300 ≤ s.code && s.code ≤ 399
def isClientError (s : Status) : Bool := 400 ≤ s.code && s.code ≤ 499
def isServerError (s : Status) : Bool := 500 ≤ s.code && s.code ≤ 599

/-- The status says that the request failed. -/
def isError (s : Status) : Bool := s.isClientError || s.isServerError

/-- A status that says that the request failed is kept; any other becomes 500. -/
def orServerError (s : Status) : Status := if s.isError then s else internalServerError

theorem isError_orServerError (s : Status) : s.orServerError.isError = true := by
  unfold orServerError
  split
  next h => exact h
  next => rfl

theorem isError_iff (s : Status) : s.isError = true ↔ 400 ≤ s.code ∧ s.code ≤ 599 := by
  simp only [isError, isClientError, isServerError, Bool.or_eq_true, Bool.and_eq_true,
    decide_eq_true_eq]
  omega

/-- The digits of the code. -/
def digits (s : Status) : String := toString s.code

/-- The registered reason phrases. -/
def reasons : List (Nat × String) := [
  (100, "Continue"), (101, "Switching Protocols"), (102, "Processing"), (103, "Early Hints"),
  (200, "OK"), (201, "Created"), (202, "Accepted"), (203, "Non Authoritative Information"),
  (204, "No Content"), (205, "Reset Content"), (206, "Partial Content"), (207, "Multi-Status"),
  (208, "Already Reported"), (226, "IM Used"), (300, "Multiple Choices"),
  (301, "Moved Permanently"), (302, "Found"), (303, "See Other"), (304, "Not Modified"),
  (305, "Use Proxy"), (307, "Temporary Redirect"), (308, "Permanent Redirect"),
  (400, "Bad Request"), (401, "Unauthorized"), (402, "Payment Required"), (403, "Forbidden"),
  (404, "Not Found"), (405, "Method Not Allowed"), (406, "Not Acceptable"),
  (407, "Proxy Authentication Required"), (408, "Request Timeout"), (409, "Conflict"),
  (410, "Gone"), (411, "Length Required"), (412, "Precondition Failed"),
  (413, "Payload Too Large"), (414, "URI Too Long"), (415, "Unsupported Media Type"),
  (416, "Range Not Satisfiable"), (417, "Expectation Failed"), (418, "I'm a teapot"),
  (421, "Misdirected Request"), (422, "Unprocessable Entity"), (423, "Locked"),
  (424, "Failed Dependency"), (425, "Too Early"), (426, "Upgrade Required"),
  (428, "Precondition Required"), (429, "Too Many Requests"),
  (431, "Request Header Fields Too Large"), (451, "Unavailable For Legal Reasons"),
  (500, "Internal Server Error"), (501, "Not Implemented"), (502, "Bad Gateway"),
  (503, "Service Unavailable"), (504, "Gateway Timeout"), (505, "HTTP Version Not Supported"),
  (506, "Variant Also Negotiates"), (507, "Insufficient Storage"), (508, "Loop Detected"),
  (510, "Not Extended"), (511, "Network Authentication Required")]

/-- The reason phrase of a code, or a note that it has none. -/
def reason (s : Status) : String := (reasons.lookup s.code).getD "<unknown status code>"

/-- The code and its reason phrase, such as `404 Not Found`. -/
def text (s : Status) : String := s.digits ++ " " ++ s.reason

/-- The family a code belongs to by its first digit. -/
def family (s : Status) : String :=
  match s.code / 100 with
  | 1 => "INFORMATIONAL"
  | 2 => "SUCCESS"
  | 3 => "REDIRECTION"
  | 4 => "CLIENT_ERROR"
  | 5 => "SERVER_ERROR"
  | _ => "UNKNOWN"

end Status

end TimedHttp
