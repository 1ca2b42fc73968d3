/-!
# Character classes beyond ASCII

Runs of code points above 127 as triples: first, last and step. Each table holds one property of
the Unicode character database, version 14.
-/

namespace UpdateDispatch.Text.Table

/-- Letters, digits and other numeric characters. -/
def wordRuns : Array (Nat × Nat × Nat) := #[
  (170, 170, 1), (178, 179, 1), (181, 181, 1), (185, 186, 1), (188, 190, 1), (192, 214, 1),
  (216, 246, 1), (248, 705, 1), (710, 721, 1), (736, 740, 1), (748, 750, 2), (880, 884, 1),
  (886, 887, 1), (890, 893, 1), (895, 895, 1), (902, 904, 2), (905, 906, 1), (908, 910, 2),
  (911, 929, 1), (931, 1013, 1), (1015, 1153, 1), (1162, 1327, 1), (1329, 1366, 1),
  (1369, 1369, 1), (1376, 1416, 1), (1488, 1514, 1), (1519, 1522, 1), (1568, 1610, 1),
  (1632, 1641, 1), (1646, 1647, 1), (1649, 1747, 1), (1749, 1749, 1), (1765, 1766, 1),
  (1774, 1788, 1), (1791, 1791, 1), (1808, 1810, 2), (1811, 1839, 1), (1869, 1957, 1),
  (1969, 1969, 1), (1984, 2026, 1), (2036, 2037, 1), (2042, 2042, 1), (2048, 2069, 1),
  (2074, 2074, 1), (2084, 2084, 1), (2088, 2088, 1), (2112, 2136, 1), (2144, 2154, 1),
  (2160, 2183, 1), (2185, 2190, 1), (2208, 2249, 1), (2308, 2361, 1), (2365, 2365, 1),
  (2384, 2384, 1), (2392, 2401, 1), (2406, 2415, 1), (2417, 2432, 1), (2437, 2444, 1),
  (2447, 2448, 1), (2451, 2472, 1), (2474, 2480, 1), (2482, 2482, 1), (2486, 2489, 1),
  (2493, 2493, 1), (2510, 2510, 1), (2524, 2525, 1), (2527, 2529, 1), (2534, 2545, 1),
  (2548, 2553, 1), (2556, 2556, 1), (2565, 2570, 1), (2575, 2576, 1), (2579, 2600, 1),
  (2602, 2608, 1), (2610, 2611, 1), (2613, 2614, 1), (2616, 2617, 1), (2649, 2652, 1),
  (2654, 2654, 1), (2662, 2671, 1), (2674, 2676, 1), (2693, 2701, 1), (2703, 2705, 1),
  (2707, 2728, 1), (2730, 2736, 1), (2738, 2739, 1), (2741, 2745, 1), (2749, 2749, 1),
  (2768, 2768, 1), (2784, 2785, 1), (2790, 2799, 1), (2809, 2809, 1), (2821, 2828, 1),
  (2831, 2832, 1), (2835, 2856, 1), (2858, 2864, 1), (2866, 2867, 1), (2869, 2873, 1),
  (2877, 2877, 1), (2908, 2909, 1), (2911, 2913, 1), (2918, 2927, 1), (2929, 2935, 1),
  (2947, 2949, 2), (2950, 2954, 1), (2958, 2960, 1), (2962, 2965, 1), (2969, 2970, 1),
  (2972, 2974, 2), (2975, 2975, 1), (2979, 2980, 1), (2984, 2986, 1), (2990, 3001, 1),
  (3024, 3024, 1), (3046, 3058, 1), (3077, 3084, 1), (3086, 3088, 1), (3090, 3112, 1),
  (3114, 3129, 1), (3133, 3133, 1), (3160, 3162, 1), (3165, 3165, 1), (3168, 3169, 1),
  (3174, 3183, 1), (3192, 3198, 1), (3200, 3200, 1), (3205, 3212, 1), (3214, 3216, 1),
  (3218, 3240, 1), (3242, 3251, 1), (3253, 3257, 1), (3261, 3261, 1), (3293, 3294, 1),
  (3296, 3297, 1), (3302, 3311, 1), (3313, 3314, 1), (3332, 3340, 1), (3342, 3344, 1),
  (3346, 3386, 1), (3389, 3389, 1), (3406, 3406, 1), (3412, 3414, 1), (3416, 3425, 1),
  (3430, 3448, 1), (3450, 3455, 1), (3461, 3478, 1), (3482, 3505, 1), (3507, 3515, 1),
  (3517, 3517, 1), (3520, 3526, 1), (3558, 3567, 1), (3585, 3632, 1), (3634, 3635, 1),
  (3648, 3654, 1), (3664, 3673, 1), (3713, 3714, 1), (3716, 3718, 2), (3719, 3722, 1),
  (3724, 3747, 1), (3749, 3751, 2), (3752, 3760, 1), (3762, 3763, 1), (3773, 3773, 1),
  (3776, 3780, 1), (3782, 3782, 1), (3792, 3801, 1), (3804, 3807, 1), (3840, 3840, 1),
  (3872, 3891, 1), (3904, 3911, 1), (3913, 3948, 1), (3976, 3980, 1), (4096, 4138, 1),
  (4159, 4169, 1), (4176, 4181, 1), (4186, 4189, 1), (4193, 4193, 1), (4197, 4198, 1),
  (4206, 4208, 1), (4213, 4225, 1), (4238, 4240, 2), (4241, 4249, 1), (4256, 4293, 1),
  (4295, 4295, 1), (4301, 4301, 1), (4304, 4346, 1), (4348, 4680, 1), (4682, 4685, 1),
  (4688, 4694, 1), (4696, 4698, 2), (4699, 4701, 1), (4704, 4744, 1), (4746, 4749, 1),
  (4752, 4784, 1), (4786, 4789, 1), (4792, 4798, 1), (4800, 4802, 2), (4803, 4805, 1),
  (4808, 4822, 1), (4824, 4880, 1), (4882, 4885, 1), (4888, 4954, 1), (4969, 4988, 1),
  (4992, 5007, 1), (5024, 5109, 1), (5112, 5117, 1), (5121, 5740, 1), (5743, 5759, 1),
  (5761, 5786, 1), (5792, 5866, 1), (5870, 5880, 1), (5888, 5905, 1), (5919, 5937, 1),
  (5952, 5969, 1), (5984, 5996, 1), (5998, 6000, 1), (6016, 6067, 1), (6103, 6103, 1),
  (6108, 6108, 1), (6112, 6121, 1), (6128, 6137, 1), (6160, 6169, 1), (6176, 6264, 1),
  (6272, 6276, 1), (6279, 6312, 1), (6314, 6314, 1), (6320, 6389, 1), (6400, 6430, 1),
  (6470, 6509, 1), (6512, 6516, 1), (6528, 6571, 1), (6576, 6601, 1), (6608, 6618, 1),
  (6656, 6678, 1), (6688, 6740, 1), (6784, 6793, 1), (6800, 6809, 1), (6823, 6823, 1),
  (6917, 6963, 1), (6981, 6988, 1), (6992, 7001, 1), (7043, 7072, 1), (7086, 7141, 1),
  (7168, 7203, 1), (7232, 7241, 1), (7245, 7293, 1), (7296, 7304, 1), (7312, 7354, 1),
  (7357, 7359, 1), (7401, 7404, 1), (7406, 7411, 1), (7413, 7414, 1), (7418, 7418, 1),
  (7424, 7615, 1), (7680, 7957, 1), (7960, 7965, 1), (7968, 8005, 1), (8008, 8013, 1),
  (8016, 8023, 1), (8025, 8031, 2), (8032, 8061, 1), (8064, 8116, 1), (8118, 8124, 1),
  (8126, 8126, 1), (8130, 8132, 1), (8134, 8140, 1), (8144, 8147, 1), (8150, 8155, 1),
  (8160, 8172, 1), (8178, 8180, 1), (8182, 8188, 1), (8304, 8305, 1), (8308, 8313, 1),
  (8319, 8329, 1), (8336, 8348, 1), (8450, 8450, 1), (8455, 8455, 1), (8458, 8467, 1),
  (8469, 8469, 1), (8473, 8477, 1), (8484, 8490, 2), (8491, 8493, 1), (8495, 8505, 1),
  (8508, 8511, 1), (8517, 8521, 1), (8526, 8528, 2), (8529, 8585, 1), (9312, 9371, 1),
  (9450, 9471, 1), (10102, 10131, 1), (11264, 11492, 1), (11499, 11502, 1), (11506, 11507, 1),
  (11517, 11517, 1), (11520, 11557, 1), (11559, 11559, 1), (11565, 11565, 1), (11568, 11623, 1),
  (11631, 11631, 1), (11648, 11670, 1), (11680, 11686, 1), (11688, 11694, 1), (11696, 11702, 1),
  (11704, 11710, 1), (11712, 11718, 1), (11720, 11726, 1), (11728, 11734, 1), (11736, 11742, 1),
  (11823, 11823, 1), (12293, 12295, 1), (12321, 12329, 1), (12337, 12341, 1), (12344, 12348, 1),
  (12353, 12438, 1), (12445, 12447, 1), (12449, 12538, 1), (12540, 12543, 1), (12549, 12591, 1),
  (12593, 12686, 1), (12690, 12693, 1), (12704, 12735, 1), (12784, 12799, 1), (12832, 12841, 1),
  (12872, 12879, 1), (12881, 12895, 1), (12928, 12937, 1), (12977, 12991, 1), (13312, 19903, 1),
  (19968, 42124, 1), (42192, 42237, 1), (42240, 42508, 1), (42512, 42539, 1), (42560, 42606, 1),
  (42623, 42653, 1), (42656, 42735, 1), (42775, 42783, 1), (42786, 42888, 1), (42891, 42954, 1),
  (42960, 42961, 1), (42963, 42965, 2), (42966, 42969, 1), (42994, 43009, 1), (43011, 43013, 1),
  (43015, 43018, 1), (43020, 43042, 1), (43056, 43061, 1), (43072, 43123, 1), (43138, 43187, 1),
  (43216, 43225, 1), (43250, 43255, 1), (43259, 43261, 2), (43262, 43264, 2), (43265, 43301, 1),
  (43312, 43334, 1), (43360, 43388, 1), (43396, 43442, 1), (43471, 43481, 1), (43488, 43492, 1),
  (43494, 43518, 1), (43520, 43560, 1), (43584, 43586, 1), (43588, 43595, 1), (43600, 43609, 1),
  (43616, 43638, 1), (43642, 43642, 1), (43646, 43695, 1), (43697, 43697, 1), (43701, 43702, 1),
  (43705, 43709, 1), (43712, 43714, 2), (43739, 43741, 1), (43744, 43754, 1), (43762, 43764, 1),
  (43777, 43782, 1), (43785, 43790, 1), (43793, 43798, 1), (43808, 43814, 1), (43816, 43822, 1),
  (43824, 43866, 1), (43868, 43881, 1), (43888, 44002, 1), (44016, 44025, 1), (44032, 55203, 1),
  (55216, 55238, 1), (55243, 55291, 1), (63744, 64109, 1), (64112, 64217, 1), (64256, 64262, 1),
  (64275, 64279, 1), (64285, 64287, 2), (64288, 64296, 1), (64298, 64310, 1), (64312, 64316, 1),
  (64318, 64320, 2), (64321, 64323, 2), (64324, 64326, 2), (64327, 64433, 1), (64467, 64829, 1),
  (64848, 64911, 1), (64914, 64967, 1), (65008, 65019, 1), (65136, 65140, 1), (65142, 65276, 1),
  (65296, 65305, 1), (65313, 65338, 1), (65345, 65370, 1), (65382, 65470, 1), (65474, 65479, 1),
  (65482, 65487, 1), (65490, 65495, 1), (65498, 65500, 1), (65536, 65547, 1), (65549, 65574, 1),
  (65576, 65594, 1), (65596, 65597, 1), (65599, 65613, 1), (65616, 65629, 1), (65664, 65786, 1),
  (65799, 65843, 1), (65856, 65912, 1), (65930, 65931, 1), (66176, 66204, 1), (66208, 66256, 1),
  (66273, 66299, 1), (66304, 66339, 1), (66349, 66378, 1), (66384, 66421, 1), (66432, 66461, 1),
  (66464, 66499, 1), (66504, 66511, 1), (66513, 66517, 1), (66560, 66717, 1), (66720, 66729, 1),
  (66736, 66771, 1), (66776, 66811, 1), (66816, 66855, 1), (66864, 66915, 1), (66928, 66938, 1),
  (66940, 66954, 1), (66956, 66962, 1), (66964, 66965, 1), (66967, 66977, 1), (66979, 66993, 1),
  (66995, 67001, 1), (67003, 67004, 1), (67072, 67382, 1), (67392, 67413, 1), (67424, 67431, 1),
  (67456, 67461, 1), (67463, 67504, 1), (67506, 67514, 1), (67584, 67589, 1), (67592, 67594, 2),
  (67595, 67637, 1), (67639, 67640, 1), (67644, 67644, 1), (67647, 67669, 1), (67672, 67702, 1),
  (67705, 67742, 1), (67751, 67759, 1), (67808, 67826, 1), (67828, 67829, 1), (67835, 67867, 1),
  (67872, 67897, 1), (67968, 68023, 1), (68028, 68047, 1), (68050, 68096, 1), (68112, 68115, 1),
  (68117, 68119, 1), (68121, 68149, 1), (68160, 68168, 1), (68192, 68222, 1), (68224, 68255, 1),
  (68288, 68295, 1), (68297, 68324, 1), (68331, 68335, 1), (68352, 68405, 1), (68416, 68437, 1),
  (68440, 68466, 1), (68472, 68497, 1), (68521, 68527, 1), (68608, 68680, 1), (68736, 68786, 1),
  (68800, 68850, 1), (68858, 68899, 1), (68912, 68921, 1), (69216, 69246, 1), (69248, 69289, 1),
  (69296, 69297, 1), (69376, 69415, 1), (69424, 69445, 1), (69457, 69460, 1), (69488, 69505, 1),
  (69552, 69579, 1), (69600, 69622, 1), (69635, 69687, 1), (69714, 69743, 1), (69745, 69746, 1),
  (69749, 69749, 1), (69763, 69807, 1), (69840, 69864, 1), (69872, 69881, 1), (69891, 69926, 1),
  (69942, 69951, 1), (69956, 69956, 1), (69959, 69959, 1), (69968, 70002, 1), (70006, 70006, 1),
  (70019, 70066, 1), (70081, 70084, 1), (70096, 70106, 1), (70108, 70108, 1), (70113, 70132, 1),
  (70144, 70161, 1), (70163, 70187, 1), (70272, 70278, 1), (70280, 70282, 2), (70283, 70285, 1),
  (70287, 70301, 1), (70303, 70312, 1), (70320, 70366, 1), (70384, 70393, 1), (70405, 70412, 1),
  (70415, 70416, 1), (70419, 70440, 1), (70442, 70448, 1), (70450, 70451, 1), (70453, 70457, 1),
  (70461, 70461, 1), (70480, 70480, 1), (70493, 70497, 1), (70656, 70708, 1), (70727, 70730, 1),
  (70736, 70745, 1), (70751, 70753, 1), (70784, 70831, 1), (70852, 70853, 1), (70855, 70855, 1),
  (70864, 70873, 1), (71040, 71086, 1), (71128, 71131, 1), (71168, 71215, 1), (71236, 71236, 1),
  (71248, 71257, 1), (71296, 71338, 1), (71352, 71352, 1), (71360, 71369, 1), (71424, 71450, 1),
  (71472, 71483, 1), (71488, 71494, 1), (71680, 71723, 1), (71840, 71922, 1), (71935, 71942, 1),
  (71945, 71945, 1), (71948, 71955, 1), (71957, 71958, 1), (71960, 71983, 1), (71999, 72001, 2),
  (72016, 72025, 1), (72096, 72103, 1), (72106, 72144, 1), (72161, 72163, 2), (72192, 72192, 1),
  (72203, 72242, 1), (72250, 72250, 1), (72272, 72272, 1), (72284, 72329, 1), (72349, 72349, 1),
  (72368, 72440, 1), (72704, 72712, 1), (72714, 72750, 1), (72768, 72768, 1), (72784, 72812, 1),
  (72818, 72847, 1), (72960, 72966, 1), (72968, 72969, 1), (72971, 73008, 1), (73030, 73030, 1),
  (73040, 73049, 1), (73056, 73061, 1), (73063, 73064, 1), (73066, 73097, 1), (73112, 73112, 1),
  (73120, 73129, 1), (73440, 73458, 1), (73648, 73648, 1), (73664, 73684, 1), (73728, 74649, 1),
  (74752, 74862, 1), (74880, 75075, 1), (77712, 77808, 1), (77824, 78894, 1), (82944, 83526, 1),
  (92160, 92728, 1), (92736, 92766, 1), (92768, 92777, 1), (92784, 92862, 1), (92864, 92873, 1),
  (92880, 92909, 1), (92928, 92975, 1), (92992, 92995, 1), (93008, 93017, 1), (93019, 93025, 1),
  (93027, 93047, 1), (93053, 93071, 1), (93760, 93846, 1), (93952, 94026, 1), (94032, 94032, 1),
  (94099, 94111, 1), (94176, 94177, 1), (94179, 94179, 1), (94208, 100343, 1), (100352, 101589, 1),
  (101632, 101640, 1), (110576, 110579, 1), (110581, 110587, 1), (110589, 110590, 1),
  (110592, 110882, 1), (110928, 110930, 1), (110948, 110951, 1), (110960, 111355, 1),
  (113664, 113770, 1), (113776, 113788, 1), (113792, 113800, 1), (113808, 113817, 1),
  (119520, 119539, 1), (119648, 119672, 1), (119808, 119892, 1), (119894, 119964, 1),
  (119966, 119967, 1), (119970, 119970, 1), (119973, 119974, 1), (119977, 119980, 1),
  (119982, 119993, 1), (119995, 119997, 2), (119998, 120003, 1), (120005, 120069, 1),
  (120071, 120074, 1), (120077, 120084, 1), (120086, 120092, 1), (120094, 120121, 1),
  (120123, 120126, 1), (120128, 120132, 1), (120134, 120134, 1), (120138, 120144, 1),
  (120146, 120485, 1), (120488, 120512, 1), (120514, 120538, 1), (120540, 120570, 1),
  (120572, 120596, 1), (120598, 120628, 1), (120630, 120654, 1), (120656, 120686, 1),
  (120688, 120712, 1), (120714, 120744, 1), (120746, 120770, 1), (120772, 120779, 1),
  (120782, 120831, 1), (122624, 122654, 1), (123136, 123180, 1), (123191, 123197, 1),
  (123200, 123209, 1), (123214, 123214, 1), (123536, 123565, 1), (123584, 123627, 1),
  (123632, 123641, 1), (124896, 124902, 1), (124904, 124907, 1), (124909, 124910, 1),
  (124912, 124926, 1), (124928, 125124, 1), (125127, 125135, 1), (125184, 125251, 1),
  (125259, 125259, 1), (125264, 125273, 1), (126065, 126123, 1), (126125, 126127, 1),
  (126129, 126132, 1), (126209, 126253, 1), (126255, 126269, 1), (126464, 126467, 1),
  (126469, 126495, 1), (126497, 126498, 1), (126500, 126500, 1), (126503, 126505, 2),
  (126506, 126514, 1), (126516, 126519, 1), (126521, 126523, 2), (126530, 126530, 1),
  (126535, 126541, 2), (126542, 126543, 1), (126545, 126546, 1), (126548, 126548, 1),
  (126551, 126561, 2), (126562, 126564, 2), (126567, 126570, 1), (126572, 126578, 1),
  (126580, 126583, 1), (126585, 126588, 1), (126590, 126592, 2), (126593, 126601, 1),
  (126603, 126619, 1), (126625, 126627, 1), (126629, 126633, 1), (126635, 126651, 1),
  (127232, 127244, 1), (130032, 130041, 1), (131072, 173791, 1), (173824, 177976, 1),
  (177984, 178205, 1), (178208, 183969, 1), (183984, 191456, 1), (194560, 195101, 1),
  (196608, 201546, 1)]

/-- Decimal digits. -/
def decimalRuns : Array (Nat × Nat × Nat) := #[
  (1632, 1641, 1), (1776, 1785, 1), (1984, 1993, 1), (2406, 2415, 1), (2534, 2543, 1),
  (2662, 2671, 1), (2790, 2799, 1), (2918, 2927, 1), (3046, 3055, 1), (3174, 3183, 1),
  (3302, 3311, 1), (3430, 3439, 1), (3558, 3567, 1), (3664, 3673, 1), (3792, 3801, 1),
  (3872, 3881, 1), (4160, 4169, 1), (4240, 4249, 1), (6112, 6121, 1), (6160, 6169, 1),
  (6470, 6479, 1), (6608, 6617, 1), (6784, 6793, 1), (6800, 6809, 1), (6992, 7001, 1),
  (7088, 7097, 1), (7232, 7241, 1), (7248, 7257, 1), (42528, 42537, 1), (43216, 43225, 1),
  (43264, 43273, 1), (43472, 43481, 1), (43504, 43513, 1), (43600, 43609, 1), (44016, 44025, 1),
  (65296, 65305, 1), (66720, 66729, 1), (68912, 68921, 1), (69734, 69743, 1), (69872, 69881, 1),
  (69942, 69951, 1), (70096, 70105, 1), (70384, 70393, 1), (70736, 70745, 1), (70864, 70873, 1),
  (71248, 71257, 1), (71360, 71369, 1), (71472, 71481, 1), (71904, 71913, 1), (72016, 72025, 1),
  (72784, 72793, 1), (73040, 73049, 1), (73120, 73129, 1), (92768, 92777, 1), (92864, 92873, 1),
  (93008, 93017, 1), (120782, 120831, 1), (123200, 123209, 1), (123632, 123641, 1),
  (125264, 125273, 1), (130032, 130041, 1)]

/-- White space. -/
def blankRuns : Array (Nat × Nat × Nat) := #[
  (133, 133, 1), (160, 160, 1), (5760, 5760, 1), (8192, 8202, 1), (8232, 8233, 1), (8239, 8239, 1),
  (8287, 8287, 1), (12288, 12288, 1)]

/-- Characters that a quoted literal writes by their number: controls, formats, separators other
than the space, private use and unassigned code points. -/
def unprintableRuns : Array (Nat × Nat × Nat) := #[
  (128, 160, 1), (173, 173, 1), (888, 889, 1), (896, 899, 1), (907, 909, 2), (930, 930, 1),
  (1328, 1328, 1), (1367, 1368, 1), (1419, 1420, 1), (1424, 1424, 1), (1480, 1487, 1),
  (1515, 1518, 1), (1525, 1541, 1), (1564, 1564, 1), (1757, 1757, 1), (1806, 1807, 1),
  (1867, 1868, 1), (1970, 1983, 1), (2043, 2044, 1), (2094, 2095, 1), (2111, 2111, 1),
  (2140, 2141, 1), (2143, 2143, 1), (2155, 2159, 1), (2191, 2199, 1), (2274, 2274, 1),
  (2436, 2436, 1), (2445, 2446, 1), (2449, 2450, 1), (2473, 2473, 1), (2481, 2483, 2),
  (2484, 2485, 1), (2490, 2491, 1), (2501, 2502, 1), (2505, 2506, 1), (2511, 2518, 1),
  (2520, 2523, 1), (2526, 2526, 1), (2532, 2533, 1), (2559, 2560, 1), (2564, 2564, 1),
  (2571, 2574, 1), (2577, 2578, 1), (2601, 2601, 1), (2609, 2609, 1), (2612, 2612, 1),
  (2615, 2615, 1), (2618, 2619, 1), (2621, 2621, 1), (2627, 2630, 1), (2633, 2634, 1),
  (2638, 2640, 1), (2642, 2648, 1), (2653, 2655, 2), (2656, 2661, 1), (2679, 2688, 1),
  (2692, 2692, 1), (2702, 2702, 1), (2706, 2706, 1), (2729, 2729, 1), (2737, 2737, 1),
  (2740, 2740, 1), (2746, 2747, 1), (2758, 2758, 1), (2762, 2762, 1), (2766, 2767, 1),
  (2769, 2783, 1), (2788, 2789, 1), (2802, 2808, 1), (2816, 2816, 1), (2820, 2820, 1),
  (2829, 2830, 1), (2833, 2834, 1), (2857, 2857, 1), (2865, 2865, 1), (2868, 2868, 1),
  (2874, 2875, 1), (2885, 2886, 1), (2889, 2890, 1), (2894, 2900, 1), (2904, 2907, 1),
  (2910, 2910, 1), (2916, 2917, 1), (2936, 2945, 1), (2948, 2948, 1), (2955, 2957, 1),
  (2961, 2961, 1), (2966, 2968, 1), (2971, 2973, 2), (2976, 2978, 1), (2981, 2983, 1),
  (2987, 2989, 1), (3002, 3005, 1), (3011, 3013, 1), (3017, 3017, 1), (3022, 3023, 1),
  (3025, 3030, 1), (3032, 3045, 1), (3067, 3071, 1), (3085, 3085, 1), (3089, 3089, 1),
  (3113, 3113, 1), (3130, 3131, 1), (3141, 3141, 1), (3145, 3145, 1), (3150, 3156, 1),
  (3159, 3159, 1), (3163, 3164, 1), (3166, 3167, 1), (3172, 3173, 1), (3184, 3190, 1),
  (3213, 3213, 1), (3217, 3217, 1), (3241, 3241, 1), (3252, 3252, 1), (3258, 3259, 1),
  (3269, 3269, 1), (3273, 3273, 1), (3278, 3284, 1), (3287, 3292, 1), (3295, 3295, 1),
  (3300, 3301, 1), (3312, 3312, 1), (3315, 3327, 1), (3341, 3341, 1), (3345, 3345, 1),
  (3397, 3397, 1), (3401, 3401, 1), (3408, 3411, 1), (3428, 3429, 1), (3456, 3456, 1),
  (3460, 3460, 1), (3479, 3481, 1), (3506, 3506, 1), (3516, 3518, 2), (3519, 3519, 1),
  (3527, 3529, 1), (3531, 3534, 1), (3541, 3543, 2), (3552, 3557, 1), (3568, 3569, 1),
  (3573, 3584, 1), (3643, 3646, 1), (3676, 3712, 1), (3715, 3717, 2), (3723, 3723, 1),
  (3748, 3750, 2), (3774, 3775, 1), (3781, 3783, 2), (3790, 3791, 1), (3802, 3803, 1),
  (3808, 3839, 1), (3912, 3912, 1), (3949, 3952, 1), (3992, 3992, 1), (4029, 4029, 1),
  (4045, 4045, 1), (4059, 4095, 1), (4294, 4296, 2), (4297, 4300, 1), (4302, 4303, 1),
  (4681, 4681, 1), (4686, 4687, 1), (4695, 4697, 2), (4702, 4703, 1), (4745, 4745, 1),
  (4750, 4751, 1), (4785, 4785, 1), (4790, 4791, 1), (4799, 4801, 2), (4806, 4807, 1),
  (4823, 4823, 1), (4881, 4881, 1), (4886, 4887, 1), (4955, 4956, 1), (4989, 4991, 1),
  (5018, 5023, 1), (5110, 5111, 1), (5118, 5119, 1), (5760, 5760, 1), (5789, 5791, 1),
  (5881, 5887, 1), (5910, 5918, 1), (5943, 5951, 1), (5972, 5983, 1), (5997, 5997, 1),
  (6001, 6001, 1), (6004, 6015, 1), (6110, 6111, 1), (6122, 6127, 1), (6138, 6143, 1),
  (6158, 6158, 1), (6170, 6175, 1), (6265, 6271, 1), (6315, 6319, 1), (6390, 6399, 1),
  (6431, 6431, 1), (6444, 6447, 1), (6460, 6463, 1), (6465, 6467, 1), (6510, 6511, 1),
  (6517, 6527, 1), (6572, 6575, 1), (6602, 6607, 1), (6619, 6621, 1), (6684, 6685, 1),
  (6751, 6751, 1), (6781, 6782, 1), (6794, 6799, 1), (6810, 6815, 1), (6830, 6831, 1),
  (6863, 6911, 1), (6989, 6991, 1), (7039, 7039, 1), (7156, 7163, 1), (7224, 7226, 1),
  (7242, 7244, 1), (7305, 7311, 1), (7355, 7356, 1), (7368, 7375, 1), (7419, 7423, 1),
  (7958, 7959, 1), (7966, 7967, 1), (8006, 8007, 1), (8014, 8015, 1), (8024, 8030, 2),
  (8062, 8063, 1), (8117, 8117, 1), (8133, 8133, 1), (8148, 8149, 1), (8156, 8156, 1),
  (8176, 8177, 1), (8181, 8181, 1), (8191, 8207, 1), (8232, 8239, 1), (8287, 8303, 1),
  (8306, 8307, 1), (8335, 8335, 1), (8349, 8351, 1), (8385, 8399, 1), (8433, 8447, 1),
  (8588, 8591, 1), (9255, 9279, 1), (9291, 9311, 1), (11124, 11125, 1), (11158, 11158, 1),
  (11508, 11512, 1), (11558, 11560, 2), (11561, 11564, 1), (11566, 11567, 1), (11624, 11630, 1),
  (11633, 11646, 1), (11671, 11679, 1), (11687, 11687, 1), (11695, 11695, 1), (11703, 11703, 1),
  (11711, 11711, 1), (11719, 11719, 1), (11727, 11727, 1), (11735, 11735, 1), (11743, 11743, 1),
  (11870, 11903, 1), (11930, 11930, 1), (12020, 12031, 1), (12246, 12271, 1), (12284, 12288, 1),
  (12352, 12352, 1), (12439, 12440, 1), (12544, 12548, 1), (12592, 12592, 1), (12687, 12687, 1),
  (12772, 12783, 1), (12831, 12831, 1), (42125, 42127, 1), (42183, 42191, 1), (42540, 42559, 1),
  (42744, 42751, 1), (42955, 42959, 1), (42962, 42964, 2), (42970, 42993, 1), (43053, 43055, 1),
  (43066, 43071, 1), (43128, 43135, 1), (43206, 43213, 1), (43226, 43231, 1), (43348, 43358, 1),
  (43389, 43391, 1), (43470, 43470, 1), (43482, 43485, 1), (43519, 43519, 1), (43575, 43583, 1),
  (43598, 43599, 1), (43610, 43611, 1), (43715, 43738, 1), (43767, 43776, 1), (43783, 43784, 1),
  (43791, 43792, 1), (43799, 43807, 1), (43815, 43815, 1), (43823, 43823, 1), (43884, 43887, 1),
  (44014, 44015, 1), (44026, 44031, 1), (55204, 55215, 1), (55239, 55242, 1), (55292, 55295, 1),
  (57344, 63743, 1), (64110, 64111, 1), (64218, 64255, 1), (64263, 64274, 1), (64280, 64284, 1),
  (64311, 64311, 1), (64317, 64319, 2), (64322, 64322, 1), (64325, 64325, 1), (64451, 64466, 1),
  (64912, 64913, 1), (64968, 64974, 1), (64976, 65007, 1), (65050, 65055, 1), (65107, 65107, 1),
  (65127, 65127, 1), (65132, 65135, 1), (65141, 65141, 1), (65277, 65280, 1), (65471, 65473, 1),
  (65480, 65481, 1), (65488, 65489, 1), (65496, 65497, 1), (65501, 65503, 1), (65511, 65511, 1),
  (65519, 65531, 1), (65534, 65535, 1), (65548, 65548, 1), (65575, 65575, 1), (65595, 65595, 1),
  (65598, 65598, 1), (65614, 65615, 1), (65630, 65663, 1), (65787, 65791, 1), (65795, 65798, 1),
  (65844, 65846, 1), (65935, 65935, 1), (65949, 65951, 1), (65953, 65999, 1), (66046, 66175, 1),
  (66205, 66207, 1), (66257, 66271, 1), (66300, 66303, 1), (66340, 66348, 1), (66379, 66383, 1),
  (66427, 66431, 1), (66462, 66462, 1), (66500, 66503, 1), (66518, 66559, 1), (66718, 66719, 1),
  (66730, 66735, 1), (66772, 66775, 1), (66812, 66815, 1), (66856, 66863, 1), (66916, 66926, 1),
  (66939, 66939, 1), (66955, 66955, 1), (66963, 66963, 1), (66966, 66966, 1), (66978, 66978, 1),
  (66994, 66994, 1), (67002, 67002, 1), (67005, 67071, 1), (67383, 67391, 1), (67414, 67423, 1),
  (67432, 67455, 1), (67462, 67462, 1), (67505, 67505, 1), (67515, 67583, 1), (67590, 67591, 1),
  (67593, 67593, 1), (67638, 67638, 1), (67641, 67643, 1), (67645, 67646, 1), (67670, 67670, 1),
  (67743, 67750, 1), (67760, 67807, 1), (67827, 67827, 1), (67830, 67834, 1), (67868, 67870, 1),
  (67898, 67902, 1), (67904, 67967, 1), (68024, 68027, 1), (68048, 68049, 1), (68100, 68100, 1),
  (68103, 68107, 1), (68116, 68116, 1), (68120, 68120, 1), (68150, 68151, 1), (68155, 68158, 1),
  (68169, 68175, 1), (68185, 68191, 1), (68256, 68287, 1), (68327, 68330, 1), (68343, 68351, 1),
  (68406, 68408, 1), (68438, 68439, 1), (68467, 68471, 1), (68498, 68504, 1), (68509, 68520, 1),
  (68528, 68607, 1), (68681, 68735, 1), (68787, 68799, 1), (68851, 68857, 1), (68904, 68911, 1),
  (68922, 69215, 1), (69247, 69247, 1), (69290, 69290, 1), (69294, 69295, 1), (69298, 69375, 1),
  (69416, 69423, 1), (69466, 69487, 1), (69514, 69551, 1), (69580, 69599, 1), (69623, 69631, 1),
  (69710, 69713, 1), (69750, 69758, 1), (69821, 69821, 1), (69827, 69839, 1), (69865, 69871, 1),
  (69882, 69887, 1), (69941, 69941, 1), (69960, 69967, 1), (70007, 70015, 1), (70112, 70112, 1),
  (70133, 70143, 1), (70162, 70162, 1), (70207, 70271, 1), (70279, 70281, 2), (70286, 70286, 1),
  (70302, 70302, 1), (70314, 70319, 1), (70379, 70383, 1), (70394, 70399, 1), (70404, 70404, 1),
  (70413, 70414, 1), (70417, 70418, 1), (70441, 70441, 1), (70449, 70449, 1), (70452, 70452, 1),
  (70458, 70458, 1), (70469, 70470, 1), (70473, 70474, 1), (70478, 70479, 1), (70481, 70486, 1),
  (70488, 70492, 1), (70500, 70501, 1), (70509, 70511, 1), (70517, 70655, 1), (70748, 70748, 1),
  (70754, 70783, 1), (70856, 70863, 1), (70874, 71039, 1), (71094, 71095, 1), (71134, 71167, 1),
  (71237, 71247, 1), (71258, 71263, 1), (71277, 71295, 1), (71354, 71359, 1), (71370, 71423, 1),
  (71451, 71452, 1), (71468, 71471, 1), (71495, 71679, 1), (71740, 71839, 1), (71923, 71934, 1),
  (71943, 71944, 1), (71946, 71947, 1), (71956, 71956, 1), (71959, 71959, 1), (71990, 71990, 1),
  (71993, 71994, 1), (72007, 72015, 1), (72026, 72095, 1), (72104, 72105, 1), (72152, 72153, 1),
  (72165, 72191, 1), (72264, 72271, 1), (72355, 72367, 1), (72441, 72703, 1), (72713, 72713, 1),
  (72759, 72759, 1), (72774, 72783, 1), (72813, 72815, 1), (72848, 72849, 1), (72872, 72872, 1),
  (72887, 72959, 1), (72967, 72967, 1), (72970, 72970, 1), (73015, 73017, 1), (73019, 73019, 1),
  (73022, 73022, 1), (73032, 73039, 1), (73050, 73055, 1), (73062, 73062, 1), (73065, 73065, 1),
  (73103, 73103, 1), (73106, 73106, 1), (73113, 73119, 1), (73130, 73439, 1), (73465, 73647, 1),
  (73649, 73663, 1), (73714, 73726, 1), (74650, 74751, 1), (74863, 74863, 1), (74869, 74879, 1),
  (75076, 77711, 1), (77811, 77823, 1), (78895, 82943, 1), (83527, 92159, 1), (92729, 92735, 1),
  (92767, 92767, 1), (92778, 92781, 1), (92863, 92863, 1), (92874, 92879, 1), (92910, 92911, 1),
  (92918, 92927, 1), (92998, 93007, 1), (93018, 93018, 1), (93026, 93026, 1), (93048, 93052, 1),
  (93072, 93759, 1), (93851, 93951, 1), (94027, 94030, 1), (94088, 94094, 1), (94112, 94175, 1),
  (94181, 94191, 1), (94194, 94207, 1), (100344, 100351, 1), (101590, 101631, 1),
  (101641, 110575, 1), (110580, 110580, 1), (110588, 110588, 1), (110591, 110591, 1),
  (110883, 110927, 1), (110931, 110947, 1), (110952, 110959, 1), (111356, 113663, 1),
  (113771, 113775, 1), (113789, 113791, 1), (113801, 113807, 1), (113818, 113819, 1),
  (113824, 118527, 1), (118574, 118575, 1), (118599, 118607, 1), (118724, 118783, 1),
  (119030, 119039, 1), (119079, 119080, 1), (119155, 119162, 1), (119275, 119295, 1),
  (119366, 119519, 1), (119540, 119551, 1), (119639, 119647, 1), (119673, 119807, 1),
  (119893, 119893, 1), (119965, 119965, 1), (119968, 119969, 1), (119971, 119972, 1),
  (119975, 119976, 1), (119981, 119981, 1), (119994, 119996, 2), (120004, 120004, 1),
  (120070, 120070, 1), (120075, 120076, 1), (120085, 120085, 1), (120093, 120093, 1),
  (120122, 120122, 1), (120127, 120127, 1), (120133, 120135, 2), (120136, 120137, 1),
  (120145, 120145, 1), (120486, 120487, 1), (120780, 120781, 1), (121484, 121498, 1),
  (121504, 121504, 1), (121520, 122623, 1), (122655, 122879, 1), (122887, 122887, 1),
  (122905, 122906, 1), (122914, 122914, 1), (122917, 122917, 1), (122923, 123135, 1),
  (123181, 123183, 1), (123198, 123199, 1), (123210, 123213, 1), (123216, 123535, 1),
  (123567, 123583, 1), (123642, 123646, 1), (123648, 124895, 1), (124903, 124903, 1),
  (124908, 124908, 1), (124911, 124911, 1), (124927, 124927, 1), (125125, 125126, 1),
  (125143, 125183, 1), (125260, 125263, 1), (125274, 125277, 1), (125280, 126064, 1),
  (126133, 126208, 1), (126270, 126463, 1), (126468, 126468, 1), (126496, 126496, 1),
  (126499, 126501, 2), (126502, 126504, 2), (126515, 126515, 1), (126520, 126524, 2),
  (126525, 126529, 1), (126531, 126534, 1), (126536, 126540, 2), (126544, 126544, 1),
  (126547, 126549, 2), (126550, 126560, 2), (126563, 126565, 2), (126566, 126566, 1),
  (126571, 126571, 1), (126579, 126579, 1), (126584, 126584, 1), (126589, 126591, 2),
  (126602, 126602, 1), (126620, 126624, 1), (126628, 126628, 1), (126634, 126634, 1),
  (126652, 126703, 1), (126706, 126975, 1), (127020, 127023, 1), (127124, 127135, 1),
  (127151, 127152, 1), (127168, 127168, 1), (127184, 127184, 1), (127222, 127231, 1),
  (127406, 127461, 1), (127491, 127503, 1), (127548, 127551, 1), (127561, 127567, 1),
  (127570, 127583, 1), (127590, 127743, 1), (128728, 128732, 1), (128749, 128751, 1),
  (128765, 128767, 1), (128884, 128895, 1), (128985, 128991, 1), (129004, 129007, 1),
  (129009, 129023, 1), (129036, 129039, 1), (129096, 129103, 1), (129114, 129119, 1),
  (129160, 129167, 1), (129198, 129199, 1), (129202, 129279, 1), (129620, 129631, 1),
  (129646, 129647, 1), (129653, 129655, 1), (129661, 129663, 1), (129671, 129679, 1),
  (129709, 129711, 1), (129723, 129727, 1), (129734, 129743, 1), (129754, 129759, 1),
  (129768, 129775, 1), (129783, 129791, 1), (129939, 129939, 1), (129995, 130031, 1),
  (130042, 131071, 1), (173792, 173823, 1), (177977, 177983, 1), (178206, 178207, 1),
  (183970, 183983, 1), (191457, 194559, 1), (195102, 196607, 1), (201547, 917759, 1),
  (918000, 1114111, 1)]

end UpdateDispatch.Text.Table
