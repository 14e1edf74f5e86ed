namespace ApiContract.Status

structure Entry where
  constant : String
  code : Nat
  reason : String

def table : List Entry :=
  [⟨"CONTINUE", 100, "Continue"⟩, ⟨"OK", 200, "OK"⟩, ⟨"CREATED", 201, "Created"⟩,
    ⟨"ACCEPTED", 202, "Accepted"⟩, ⟨"NO_CONTENT", 204, "No Content"⟩,
    ⟨"MOVED_PERMANENTLY", 301, "Moved Permanently"⟩, ⟨"FOUND", 302, "Found"⟩,
    ⟨"SEE_OTHER", 303, "See Other"⟩, ⟨"NOT_MODIFIED", 304, "Not Modified"⟩,
    ⟨"TEMPORARY_REDIRECT", 307, "Temporary Redirect"⟩, ⟨"BAD_REQUEST", 400, "Bad Request"⟩,
    ⟨"UNAUTHORIZED", 401, "Unauthorized"⟩, ⟨"PAYMENT_REQUIRED", 402, "Payment Required"⟩,
    ⟨"FORBIDDEN", 403, "Forbidden"⟩, ⟨"NOT_FOUND", 404, "Not Found"⟩,
    ⟨"METHOD_NOT_ALLOWED", 405, "Method Not Allowed"⟩, ⟨"CONFLICT", 409, "Conflict"⟩,
    ⟨"GONE", 410, "Gone"⟩, ⟨"UNPROCESSABLE_ENTITY", 422, "Unprocessable Entity"⟩,
    ⟨"TOO_MANY_REQUESTS", 429, "Too Many Requests"⟩,
    ⟨"INTERNAL_SERVER_ERROR", 500, "Internal Server Error"⟩,
    ⟨"NOT_IMPLEMENTED", 501, "Not Implemented"⟩, ⟨"BAD_GATEWAY", 502, "Bad Gateway"⟩,
    ⟨"SERVICE_UNAVAILABLE", 503, "Service Unavailable"⟩]

def ofConstant? (name : String) : Option Nat := (table.find? (·.constant == name)).map (·.code)

/-- Standard phrase of a code; a code without entry is just a response. -/
def reason (code : Nat) : String :=
  match table.find? (·.code == code) with
  | some entry => entry.reason
  | none => "Response"

def valid (code : Nat) : Bool := 100 ≤ code && code ≤ 599

end ApiContract.Status
