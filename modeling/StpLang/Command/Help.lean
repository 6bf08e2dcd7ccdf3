/-!
What the command says about itself.
-/

namespace StpLang.Command

/-- A short account of the arguments. -/
def usage : String :=
  "usage: stp [-h] [-s] [-t \x7btree,stp,json\x7d] [-o OUTFILE] [--recover]\n"
    ++ "           [--max-depth N] [--repl] [--log-level \x7bDEBUG,INFO,WARNING,ERROR\x7d]\n"
    ++ "           [source]\n"

/-- The switches and what they do. -/
def help : String :=
  usage
    ++ "\npositional arguments:\n"
    ++ "  source                Filename or raw source (with -s)\n"
    ++ "\noptions:\n"
    ++ "  -h, --help            show this help message and exit\n"
    ++ "  -s, --string          Interpret source as literal string\n"
    ++ "  -t \x7btree,stp,json\x7d, --target \x7btree,stp,json\x7d\n"
    ++ "                        Output format (default: tree)\n"
    ++ "  -o OUTFILE, --out OUTFILE\n"
    ++ "                        Output to file\n"
    ++ "  --recover             Recover from errors and print the partial tree\n"
    ++ "  --max-depth N         Maximum nesting depth\n"
    ++ "  --repl                Launch interactive REPL instead of parsing\n"
    ++ "  --log-level \x7bDEBUG,INFO,WARNING,ERROR\x7d\n"
    ++ "                        Logging level (default: WARNING)\n"

end StpLang.Command
