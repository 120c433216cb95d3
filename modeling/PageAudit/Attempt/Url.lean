import PageAudit.Attempt.Error
import PageAudit.Text.Basic

/-!
# Pages that can be audited

A page is given by an `http` or `https` address with a host. Anything else is a fatal error before a browser
is started.
-/

namespace PageAudit

open Text

/-- The rest of a text after a given beginning. -/
def afterPrefix? (front : List Char) (cs : List Char) : Option (List Char) :=
  if front.isPrefixOf cs then some (cs.drop front.length) else none

/-- The part of an address after its scheme, which is `https` or `http`. -/
def afterScheme? (cs : List Char) : Option (List Char) :=
  afterPrefix? "https://".toList cs <|> afterPrefix? "http://".toList cs

/-- A character that ends the authority of an address. -/
def endsAuthority (c : Char) : Bool :=
  c == '/' || c == '?' || c == '#'

/-- The authority: what stands before the first `/`, `?` or `#`. -/
def authority (rest : List Char) : List Char :=
  rest.takeWhile (!endsAuthority ·)

/-- Accepts addresses with a known scheme, a nonempty authority and no blank character. -/
def validateUrl (url : String) : Except AuditError Unit :=
  match afterScheme? url.toList with
  | none => .error (.invalidUrl s!"{url} (只支持 http/https)")
  | some rest =>
    if (authority rest).isEmpty || url.toList.any isBlank then .error (.invalidUrl url) else .ok ()

end PageAudit
