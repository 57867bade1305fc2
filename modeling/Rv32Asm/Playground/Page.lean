import Rv32Asm.Network.Address

/-!
The playground page, the answers to requests for it, and the address it is found at.
-/

set_option autoImplicit false
set_option relaxedAutoImplicit false

namespace Rv32Asm.Playground

open Rv32Asm.Network

def pageLines : List String :=
  ["<html>",
   "<head>",
   "\t<title>RISC-V Assembler</title>",
   "</head>",
   "<body style=\"background-color: #1E1E1E;\">",
   "\t<h1 style=\"color: white; display: inline-block;\">RISC-V Assembler</h1>",
   "\t<button id=\"assembleButton\" style=\"margin-left: 50px; height: 40px; width: " ++
     "100px;\">ASSEMBLE</button>",
   "\t<br/>",
   "\t<textarea id=\"source\" spellcheck=\"false\" style=\"width: 980px; height: 300px; " ++
     "padding: 10px; color: white; background-color: black; font-size: 1.1em; font-family: " ++
     "monospace; border: 2px solid white;\"></textarea>",
   "\t<h2 style=\"color: white;\">Output</h2>",
   "\t<pre id=\"output\" style=\"width: 980px; padding: 10px; color: white; font-size: " ++
     "1.1em; background-color: black; height: 300px; overflow-y: auto; border: 2px solid " ++
     "white;\"></pre>",
   "",
   "\t<script>",
   "\t\tvar socket;",
   "",
   "\t\tfunction connect() \x7b",
   "\t\t\tsocket = new WebSocket(\"ws://\" + window.location.host + \"/ws\");",
   "\t\t\tsocket.onmessage = function(event) \x7b",
   "\t\t\t\tvar data = JSON.parse(event.data);",
   "\t\t\t\tvar output = document.getElementById(\"output\");",
   "\t\t\t\tif (data.type == \"result\") \x7b",
   "\t\t\t\t\tvar text = \"text:\\n\";",
   "\t\t\t\t\tdata.words.forEach(function(w, i) \x7b",
   "\t\t\t\t\t\ttext += \"  \" + (i * 4).toString(16).padStart(8, \"0\") + \": \" + w + " ++
     "\"\\n\";",
   "\t\t\t\t\t\x7d);",
   "\t\t\t\t\ttext += \"\\ndata:\\n  \" + (data.data || \"(empty)\") + " ++
     "\"\\n\\nsymbols:\\n\";",
   "\t\t\t\t\tdata.symbols.forEach(function(s) \x7b",
   "\t\t\t\t\t\ttext += \"  \" + s.name + \" \" + s.segment + \"+0x\" + " ++
     "s.offset.toString(16) + \"\\n\";",
   "\t\t\t\t\t\x7d);",
   "\t\t\t\t\toutput.textContent = text;",
   "\t\t\t\t\x7d else if (data.type == \"diagnostic\") \x7b",
   "\t\t\t\t\tvar d = data.diagnostic;",
   "\t\t\t\t\toutput.textContent = \"line \" + (d.range.start.line + 1) + \":\" + " ++
     "(d.range.start.character + 1) + \": \" + d.message;",
   "\t\t\t\t\x7d else \x7b",
   "\t\t\t\t\toutput.textContent = data.text;",
   "\t\t\t\t\x7d",
   "\t\t\t\x7d;",
   "\t\t\t// when the socket closes, try to reconnect every 3 seconds",
   "\t\t\tsocket.onclose = function() \x7b",
   "\t\t\t\tsetTimeout(connect, 3000);",
   "\t\t\t\x7d;",
   "\t\t\x7d",
   "\t\tconnect();",
   "",
   "\t\tdocument.getElementById(\"assembleButton\").onclick = function() \x7b",
   "\t\t\tsocket.send(JSON.stringify(\x7b",
   "\t\t\t\ttype: \"assemble\",",
   "\t\t\t\tsource: document.getElementById(\"source\").value",
   "\t\t\t\x7d));",
   "\t\t\x7d;",
   "\t</script>",
   "</body>",
   "</html>"]

def page : String :=
  "\n".intercalate pageLines

structure Response where
  status : Nat
  contentType : String
  body : String
deriving DecidableEq, Repr

def pathOf (target : String) : String :=
  String.ofList (target.toList.takeWhile (· ≠ '?'))

/-- The answer to a request for a path. The conversation with the page starts at `/ws`, which
plain requests cannot have. -/
def get (target : String) : Response :=
  let path := pathOf target
  if path = "" ∨ path = "/" then ⟨200, "text/html", page⟩
  else if path = "/ws" then ⟨400, "text/plain; charset=utf-8", "Bad Request\n"⟩
  else ⟨404, "text/plain; charset=utf-8", "404 page not found\n"⟩

/-- The address that a browser should open for a listener. Hosts that stand for every interface are
shown as the local one. -/
def pageUrl (address : String) : String :=
  match splitAddress address.toList with
  | .error _ => "http://" ++ address
  | .ok (host, service) =>
    let shown := if host.isEmpty || isUnspecified host then "localhost".toList else host
    "http://" ++ String.ofList (joinAddress shown service)

example : pageUrl "[::]:2035" = "http://localhost:2035" := by decide +kernel
example : pageUrl "[::1]:2035" = "http://[::1]:2035" := by decide +kernel
example : pageUrl "a:b:c" = "http://a:b:c" := by decide +kernel

end Rv32Asm.Playground
