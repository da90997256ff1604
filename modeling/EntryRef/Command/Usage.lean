import EntryRef.Command.Invocation

/-!
# Help on the command line

`usage` is the line that shows how a command line is written, and `help` tells what each switch
does.
-/

namespace EntryRef.Command

open Text

/-- The name of the program. -/
def program : Text := "klsurl"

/-- How a command line is written. -/
def usage : Text := "usage: klsurl [-h] [-d] [-D DIR] (-i URI | -l URI | -c URI | -x URI)\n"

/-- What the program and its switches do, line by line. -/
def helpLines : List String :=
  [
    "",
    "Inspect Kls Urls and read the archive entries they reference",
    "",
    "options:",
    "  -h, --help            show this help message and exit",
    "  -d, --debug           Log debugging messages",
    "  -D DIR, --dir DIR     Parent directory of the directory that --extract",
    "                        writes to. Defaults to the system temp directory",
    "  -i URI, --info URI    Information about a Url",
    "  -l URI, --list URI    List the entries in the archive a Url references",
    "  -c URI, --cat URI     Print the text of the archive entry",
    "  -x URI, --extract URI",
    "                        Extract the archive entry to a file and print the",
    "                        file's path"]

/-- What is shown where help is asked for. -/
def help : Text := usage ++ helpLines.flatMap fun l => l.toList ++ ['\n']

/-- What is shown where a command line cannot be read. -/
def UsageFault.shown (why : UsageFault) : Text :=
  usage ++ program ++ ": error: " ++ why.message ++ ['\n']

end EntryRef.Command
