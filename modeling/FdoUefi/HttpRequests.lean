import FdoUefi.Resolver

/-!
# The requests of the TCP4 transport (`tcp4_http.rs`)

What `tcp4_http_post` and `tcp4_http_get` send once they are connected: the text of the headers with parts of the URL and the
session token in it, and the body.
-/

namespace FdoUefi

open Prog

/-- `url.split('/').nth(2)` -/
def hostname (url : Bytes) : Bytes := (url.splitOn 0x2F)[2]?.getD (utf8 "localhost")

/-- The header of the session token. -/
def authorizationHeader : Option Bytes → Bytes
  | some token => utf8 "Authorization: Bearer " ++ token ++ utf8 "\r\n"
  | none => []

/-- The headers of a POST. -/
def postHeaders (path hostname : Bytes) (bodyLen : Nat) (authToken : Option Bytes) : Bytes :=
  utf8 "POST " ++ path ++ utf8 " HTTP/1.1\r\n" ++
    utf8 "Host: " ++ hostname ++ utf8 "\r\n" ++
    utf8 "Content-Type: application/cbor\r\n" ++
    utf8 "Content-Length: " ++ utf8 (toString bodyLen) ++ utf8 "\r\n" ++
    authorizationHeader authToken ++ utf8 "Connection: close\r\n" ++ utf8 "\r\n"

/-- `send_buf` of `tcp4_http_post`, for a URL that can be parsed. -/
def postRequest (url body : Bytes) (authToken : Option Bytes) : Option Bytes :=
  (splitUrl url).map fun u => postHeaders u.2.2 (hostname url) body.length authToken ++ body

/-- `send_buf` of `tcp4_http_get`, for a URL that can be parsed. -/
def getRequest (url : Bytes) : Option Bytes :=
  (splitUrl url).map fun u =>
    utf8 "GET " ++ u.2.2 ++ utf8 " HTTP/1.1\r\n" ++
      utf8 "Host: " ++ hostname url ++ utf8 "\r\n" ++
      utf8 "Connection: close\r\n" ++ utf8 "\r\n"

end FdoUefi
