/-!
Colours and weights of text on a terminal.
-/

namespace QueryBook.Console

/-- Text between the control sequence that starts a rendition and the one that ends it. -/
def rendition (start stop : String) (text : String) : String :=
  "\x1b[" ++ start ++ "m" ++ text ++ "\x1b[" ++ stop ++ "m"

def red : String → String := rendition "31" "39"

def green : String → String := rendition "32" "39"

def yellow : String → String := rendition "33" "39"

def blue : String → String := rendition "34" "39"

def magenta : String → String := rendition "35" "39"

def cyan : String → String := rendition "36" "39"

def bold : String → String := rendition "1" "0"

def dim : String → String := rendition "2" "0"

end QueryBook.Console
